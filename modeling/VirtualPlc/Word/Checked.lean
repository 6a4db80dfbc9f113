import Mathlib.Data.BitVec
import Mathlib.Data.Int.Basic

/-!
# Machine arithmetic of the two build profiles

Arithmetic whose exact result does not fit panics in a debug build and wraps in a release build.
`usize` and `i64` values are natural numbers and integers; a conversion `as usize` never panics. An
index or a range outside a slice panics in both.
-/

set_option autoImplicit false

namespace VirtualPlc.Word

/-- Build profile: overflow panics (`debug`) or wraps (`release`). -/
inductive Build where
  | debug
  | release
deriving DecidableEq, Repr

/-- How a fallible function fails: it returns an error, or it panics. -/
inductive Failure where
  | err (message : String)
  | panic (message : String)
deriving DecidableEq, Repr

/-- Number of `usize` values. -/
def usizeCard : Nat := 2 ^ 64

/-- Smallest `i64`. -/
def i64Min : Int := -2 ^ 63

/-- Largest `i64`. -/
def i64Max : Int := 2 ^ 63 - 1

/-- A value of `i64`. -/
def InI64 (z : Int) : Prop := i64Min ≤ z ∧ z ≤ i64Max

/-- Smallest `i32`. -/
def i32Min : Int := -2 ^ 31

/-- Largest `i32`. -/
def i32Max : Int := 2 ^ 31 - 1

/-- A value of `i32`. -/
def InI32 (z : Int) : Prop := i32Min ≤ z ∧ z ≤ i32Max

/-- The exact result if it is in range, else what the build does on overflow. -/
def Build.result {α : Type} (b : Build) (inRange : Prop) [Decidable inRange] (exact wrapped : α)
    (message : String) : Except Failure α :=
  if inRange then .ok exact
  else
    match b with
    | .debug => .error (.panic message)
    | .release => .ok wrapped

/-- `x + y` on `usize`. -/
def usizeAdd (b : Build) (x y : Nat) : Except Failure Nat :=
  b.result (x + y < usizeCard) (x + y) ((x + y) % usizeCard) "attempt to add with overflow"

/-- `x - y` on `usize`. -/
def usizeSub (b : Build) (x y : Nat) : Except Failure Nat :=
  b.result (y ≤ x) (x - y) ((x + (usizeCard - y)) % usizeCard) "attempt to subtract with overflow"

/-- `x * y` on `usize`. -/
def usizeMul (b : Build) (x y : Nat) : Except Failure Nat :=
  b.result (x * y < usizeCard) (x * y) (x * y % usizeCard) "attempt to multiply with overflow"

/-- `!x` on `usize`. -/
def usizeNot (x : Nat) : Nat := usizeCard - 1 - x

/-- `x + y` on `i64`. -/
def i64Add (b : Build) (x y : Int) : Except Failure Int :=
  b.result (i64Min ≤ x + y ∧ x + y ≤ i64Max) (x + y) ((x + y).bmod (2 ^ 64))
    "attempt to add with overflow"

/-- `x - y` on `i64`. -/
def i64Sub (b : Build) (x y : Int) : Except Failure Int :=
  b.result (i64Min ≤ x - y ∧ x - y ≤ i64Max) (x - y) ((x - y).bmod (2 ^ 64))
    "attempt to subtract with overflow"

/-- `z as usize` for an `i64` value `z`. -/
def asUsize (z : Int) : Nat := (z % (usizeCard : Int)).toNat

/-- `x + y` on `u64`. -/
def u64Add (b : Build) (x y : Nat) : Except Failure Nat :=
  b.result (x + y < 2 ^ 64) (x + y) ((x + y) % 2 ^ 64) "attempt to add with overflow"

/-- `x + y` on `i128`. -/
def i128Add (b : Build) (x y : Int) : Except Failure Int :=
  b.result (-2 ^ 127 ≤ x + y ∧ x + y < 2 ^ 127) (x + y) ((x + y).bmod (2 ^ 128))
    "attempt to add with overflow"

/-- `x.abs()` on `i64`. -/
def i64Abs (b : Build) (x : Int) : Except Failure Int :=
  b.result (x ≠ i64Min) x.natAbs x "attempt to negate with overflow"

/-- `x / y` on `i64`, which panics in both builds. -/
def i64Div (x y : Int) : Except Failure Int :=
  if y = 0 then .error (.panic "attempt to divide by zero")
  else if x = i64Min ∧ y = -1 then .error (.panic "attempt to divide with overflow")
  else .ok (x.tdiv y)

/-- `x.saturating_add(y)` on `i64`. -/
def i64SaturatingAdd (x y : Int) : Int := max i64Min (min i64Max (x + y))

theorem i64SaturatingAdd_nonneg {x y : Int} (hx : 0 ≤ x) (hy : 0 ≤ y) :
    0 ≤ i64SaturatingAdd x y := by
  rw [i64SaturatingAdd, i64Max]
  omega

theorem inI64_i64SaturatingAdd (x y : Int) : InI64 (i64SaturatingAdd x y) := by
  rw [InI64, i64SaturatingAdd, i64Min, i64Max]
  omega

/-- Under a cap within range no saturation shows. -/
theorem min_i64SaturatingAdd {x y cap : Int} (hsum : 0 ≤ x + y) (hcap : cap ≤ i64Max) :
    min (i64SaturatingAdd x y) cap = min cap (x + y) := by
  simp only [i64SaturatingAdd, i64Min, i64Max] at hcap ⊢
  omega

/-- `n as i64` for a `u64` value `n`. -/
def asI64 (n : Nat) : Int := (n : Int).bmod (2 ^ 64)

/-- `x + y` on `u16`. -/
def u16Add (b : Build) (x y : BitVec 16) : Except Failure (BitVec 16) :=
  b.result (x.toNat + y.toNat < 2 ^ 16) (x + y) (x + y) "attempt to add with overflow"

/-- `x - y` on `u16`. -/
def u16Sub (b : Build) (x y : BitVec 16) : Except Failure (BitVec 16) :=
  b.result (y.toNat ≤ x.toNat) (x - y) (x - y) "attempt to subtract with overflow"

/-- `x + y` on `u32`. -/
def u32Add (b : Build) (x y : BitVec 32) : Except Failure (BitVec 32) :=
  b.result (x.toNat + y.toNat < 2 ^ 32) (x + y) (x + y) "attempt to add with overflow"

/-- `x >> n` on `u32`. A release build masks the distance. -/
def u32Shr (b : Build) (x : BitVec 32) (n : Nat) : Except Failure (BitVec 32) :=
  b.result (n < 32) (x >>> n) (x >>> (n % 32)) "attempt to shift right with overflow"

/-- `xs[i]`. -/
def index {α : Type} (xs : List α) (i : Nat) : Except Failure α :=
  match xs[i]? with
  | some x => .ok x
  | none => .error (.panic "index out of bounds")

/-- `&xs[lo..hi]`. -/
def slice {α : Type} (xs : List α) (lo hi : Nat) : Except Failure (List α) :=
  if lo ≤ hi ∧ hi ≤ xs.length then .ok ((xs.take hi).drop lo)
  else .error (.panic "range out of bounds")

/-- A sequence returns when its parts do. -/
theorem bind_eq_ok {α β : Type} {x : Except Failure α} {f : α → Except Failure β} {r : β} :
    x >>= f = .ok r ↔ ∃ a, x = .ok a ∧ f a = .ok r := by
  cases x with
  | error e =>
    constructor
    · intro h
      cases h
    · rintro ⟨a, h, -⟩
      cases h
  | ok a =>
    constructor
    · intro h
      exact ⟨a, rfl, h⟩
    · rintro ⟨a', h, h'⟩
      cases h
      exact h'

/-- Operations in order: the last one comes after the others. -/
theorem foldlM_concat {α β : Type} (f : β → α → Except Failure β) (start : β) (xs : List α)
    (x : α) :
    (xs ++ [x]).foldlM f start = (xs.foldlM f start >>= fun y => f y x) := by
  rw [List.foldlM_append]
  simp only [List.foldlM_cons, List.foldlM_nil, bind_pure]

theorem foldlM_concat_eq_ok {α β : Type} {f : β → α → Except Failure β} {start r : β} {xs : List α}
    {x : α} :
    (xs ++ [x]).foldlM f start = .ok r ↔ ∃ y, xs.foldlM f start = .ok y ∧ f y x = .ok r := by
  rw [foldlM_concat, bind_eq_ok]

/-- A result of which something is seen has been returned. -/
theorem map_eq_ok {α β : Type} {x : Except Failure α} {f : α → β} {seen : β} :
    x.map f = .ok seen ↔ ∃ a, x = .ok a ∧ f a = seen := by
  cases x with
  | error e =>
    constructor
    · intro h
      cases h
    · rintro ⟨a, h, -⟩
      cases h
  | ok a =>
    constructor
    · exact fun h => ⟨a, rfl, Except.ok.inj h⟩
    · rintro ⟨a', h, rfl⟩
      cases h
      rfl

section Results

variable {α : Type} {b : Build} {p : Prop} [Decidable p] {exact wrapped : α} {msg : String}

theorem Build.result_of_inRange (h : p) : b.result p exact wrapped msg = .ok exact := if_pos h

/-- A debug build answers only with exact results. -/
theorem Build.debug_result_eq_ok_iff {r : α} :
    Build.debug.result p exact wrapped msg = .ok r ↔ p ∧ r = exact := by
  by_cases h : p
  · rw [Build.result_of_inRange h, Except.ok.injEq]
    exact ⟨fun e => ⟨h, e.symm⟩, fun e => e.2.symm⟩
  · rw [Build.result, if_neg h]
    constructor
    · intro e
      cases e
    · intro e
      exact absurd e.1 h

/-- Only a debug build panics, and only outside the range. -/
theorem Build.result_returns_iff :
    (∃ r, b.result p exact wrapped msg = .ok r) ↔ (b = .debug → p) := by
  cases b with
  | debug =>
    constructor
    · rintro ⟨r, hr⟩ _
      exact (Build.debug_result_eq_ok_iff.mp hr).1
    · intro h
      exact ⟨exact, Build.result_of_inRange (h rfl)⟩
  | release =>
    refine ⟨fun _ h => absurd h (by decide), fun _ => ?_⟩
    by_cases h : p
    · exact ⟨exact, Build.result_of_inRange h⟩
    · exact ⟨wrapped, if_neg h⟩

end Results

theorem index_eq {α : Type} {xs : List α} {i : Nat} (h : i < xs.length) :
    index xs i = .ok xs[i] := by
  rw [index, List.getElem?_eq_getElem h]

theorem slice_eq {α : Type} {xs : List α} {lo hi : Nat} (h : lo ≤ hi ∧ hi ≤ xs.length) :
    slice xs lo hi = .ok ((xs.take hi).drop lo) := if_pos h

theorem usizeAdd_eq {b : Build} {x y : Nat} (h : x + y < usizeCard) :
    usizeAdd b x y = .ok (x + y) := Build.result_of_inRange h

theorem usizeSub_eq {b : Build} {x y : Nat} (h : y ≤ x) : usizeSub b x y = .ok (x - y) :=
  Build.result_of_inRange h

theorem usizeMul_eq {b : Build} {x y : Nat} (h : x * y < usizeCard) :
    usizeMul b x y = .ok (x * y) := Build.result_of_inRange h

theorem Build.result_eq_ok {α : Type} {b : Build} {p : Prop} [Decidable p] {exact wrapped r : α}
    {msg : String} (h : b.result p exact wrapped msg = .ok r) : (p ∧ r = exact) ∨ r = wrapped := by
  by_cases hp : p
  · rw [Build.result_of_inRange hp] at h
    cases h
    exact .inl ⟨hp, rfl⟩
  · right
    cases b with
    | debug =>
      rw [Build.result, if_neg hp] at h
      cases h
    | release =>
      rw [Build.result, if_neg hp] at h
      cases h
      rfl

/-- In every build a sum on `u32` is the wrapping one. -/
theorem u32Add_ok {b : Build} {x y r : BitVec 32} (h : u32Add b x y = .ok r) : r = x + y := by
  rcases Build.result_eq_ok h with ⟨-, rfl⟩ | rfl <;> rfl

/-- In every build a sum is exact modulo `2 ^ 64`. -/
theorem usizeAdd_ok {b : Build} {x y r : Nat} (h : usizeAdd b x y = .ok r) :
    r = (x + y) % usizeCard := by
  rcases Build.result_eq_ok h with ⟨hlt, rfl⟩ | rfl
  · exact (Nat.mod_eq_of_lt hlt).symm
  · rfl

/-- In every build a product is exact modulo `2 ^ 64`. -/
theorem usizeMul_ok {b : Build} {x y r : Nat} (h : usizeMul b x y = .ok r) :
    r = x * y % usizeCard := by
  rcases Build.result_eq_ok h with ⟨hlt, rfl⟩ | rfl
  · exact (Nat.mod_eq_of_lt hlt).symm
  · rfl

theorem asUsize_bmod (z w : Int) : asUsize (z.bmod (2 ^ 64) + w) = asUsize (z + w) := by
  have h : (z.bmod (2 ^ 64) + w) % (usizeCard : Int) = (z + w) % (usizeCard : Int) := by
    rw [show ((usizeCard : Nat) : Int) = ((2 ^ 64 : Nat) : Int) from rfl]
    rw [Int.add_emod, Int.bmod_emod, ← Int.add_emod]
  rw [asUsize, h, asUsize]

theorem i64Sub_ok {b : Build} {x y r : Int} (h : i64Sub b x y = .ok r) (w : Int) :
    asUsize (r + w) = asUsize (x - y + w) := by
  rcases Build.result_eq_ok h with ⟨-, rfl⟩ | rfl
  · rfl
  · exact asUsize_bmod _ w

theorem i64Add_ok {b : Build} {x y r : Int} (h : i64Add b x y = .ok r) :
    asUsize r = asUsize (x + y) := by
  rcases Build.result_eq_ok h with ⟨-, rfl⟩ | rfl
  · rfl
  · have h0 := asUsize_bmod (x + y) 0
    rwa [Int.add_zero, Int.add_zero] at h0

theorem i64Add_eq {b : Build} {x y : Int} (h : i64Min ≤ x + y ∧ x + y ≤ i64Max) :
    i64Add b x y = .ok (x + y) := Build.result_of_inRange h

theorem i64Sub_eq {b : Build} {x y : Int} (h : i64Min ≤ x - y ∧ x - y ≤ i64Max) :
    i64Sub b x y = .ok (x - y) := Build.result_of_inRange h

theorem asUsize_eq {z : Int} (h : 0 ≤ z) (h' : z ≤ i64Max) : asUsize z = z.toNat := by
  have hlt : z < (usizeCard : Int) := by
    unfold i64Max at h'
    unfold usizeCard
    omega
  rw [asUsize, Int.emod_eq_of_lt h hlt]

theorem usizeAdd_debug {x y r : Nat} :
    usizeAdd .debug x y = .ok r ↔ x + y < usizeCard ∧ r = x + y := Build.debug_result_eq_ok_iff

theorem usizeSub_debug {x y r : Nat} :
    usizeSub .debug x y = .ok r ↔ y ≤ x ∧ r = x - y := Build.debug_result_eq_ok_iff

theorem usizeMul_debug {x y r : Nat} :
    usizeMul .debug x y = .ok r ↔ x * y < usizeCard ∧ r = x * y := Build.debug_result_eq_ok_iff

theorem i64Add_debug {x y r : Int} :
    i64Add .debug x y = .ok r ↔ (i64Min ≤ x + y ∧ x + y ≤ i64Max) ∧ r = x + y :=
  Build.debug_result_eq_ok_iff

/-- In every build a sum on `u64` is exact modulo `2 ^ 64`. -/
theorem u64Add_ok {b : Build} {x y r : Nat} (h : u64Add b x y = .ok r) :
    r = (x + y) % 2 ^ 64 := by
  rcases Build.result_eq_ok h with ⟨hlt, rfl⟩ | rfl
  · exact (Nat.mod_eq_of_lt hlt).symm
  · rfl

theorem u64Add_returns_iff {b : Build} {x y : Nat} :
    (∃ r, u64Add b x y = .ok r) ↔ (b = .debug → x + y < 2 ^ 64) := Build.result_returns_iff

theorem u64Add_debug {x y r : Nat} :
    u64Add .debug x y = .ok r ↔ x + y < 2 ^ 64 ∧ r = x + y := Build.debug_result_eq_ok_iff

theorem i128Add_eq {b : Build} {x y : Int} (h : -2 ^ 127 ≤ x + y ∧ x + y < 2 ^ 127) :
    i128Add b x y = .ok (x + y) := Build.result_of_inRange h

theorem i64Abs_debug {x r : Int} : i64Abs .debug x = .ok r ↔ x ≠ i64Min ∧ r = x.natAbs :=
  Build.debug_result_eq_ok_iff

theorem i64Div_returns_iff {x y : Int} :
    (∃ r, i64Div x y = .ok r) ↔ y ≠ 0 ∧ ¬ (x = i64Min ∧ y = -1) := by
  rw [i64Div]
  by_cases hzero : y = 0
  · simp [hzero]
  · by_cases hmin : x = i64Min ∧ y = -1
    · simp [hmin]
    · simp [hzero, hmin]

theorem i64Sub_debug {x y r : Int} :
    i64Sub .debug x y = .ok r ↔ (i64Min ≤ x - y ∧ x - y ≤ i64Max) ∧ r = x - y :=
  Build.debug_result_eq_ok_iff

end VirtualPlc.Word
