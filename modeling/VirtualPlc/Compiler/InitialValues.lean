import VirtualPlc.Compiler.MemoryMap

/-!
# Initial values

`initialised_iff`: the memory of a new instance holds the declared initial values exactly when all
of them are zero. Initialisers reach the type checker, but not the typed tree, the module's data or
any code.
-/

set_option autoImplicit false

namespace VirtualPlc.Compiler

open VirtualPlc.Word VirtualPlc.Wasm VirtualPlc.Control

/-! ## Constants and their representation -/

/-- What the constants need beyond truth values, integers and durations: the operations on floats,
on dates, on texts and on operands of different kinds, and the representation of such constants. -/
structure ConstantOps where
  binary : BinaryOp → Literal → Literal → Option Literal
  unary : UnaryOp → Literal → Option Literal
  bits : DataType → Literal → Option Nat

/-- Value of a binary operator on integers; a quotient by zero has none. -/
def foldInteger (ops : ConstantOps) (op : BinaryOp) (a b : Int) : Option Literal :=
  match op with
  | .add => some (.integer (a + b))
  | .sub => some (.integer (a - b))
  | .mul => some (.integer (a * b))
  | .div => if b = 0 then none else some (.integer (a.tdiv b))
  | .mod => if b = 0 then none else some (.integer (a.tmod b))
  | .pow =>
    if 0 ≤ b then some (.integer (a ^ b.toNat)) else ops.binary .pow (.integer a) (.integer b)
  | .eq => some (.bool (a = b))
  | .ne => some (.bool (a ≠ b))
  | .lt => some (.bool (a < b))
  | .le => some (.bool (a ≤ b))
  | .gt => some (.bool (b < a))
  | .ge => some (.bool (b ≤ a))
  | op => ops.binary op (.integer a) (.integer b)

/-- Value of a binary operator on truth values. -/
def foldBool (ops : ConstantOps) (op : BinaryOp) (a b : Bool) : Option Literal :=
  match op with
  | .and => some (.bool (a && b))
  | .or => some (.bool (a || b))
  | .xor => some (.bool (a ^^ b))
  | .eq => some (.bool (a = b))
  | .ne => some (.bool (a ≠ b))
  | op => ops.binary op (.bool a) (.bool b)

/-- Value of a binary operator on durations in nanoseconds. -/
def foldTime (ops : ConstantOps) (op : BinaryOp) (a b : Int) : Option Literal :=
  match op with
  | .add => some (.time (a + b))
  | .sub => some (.time (a - b))
  | .eq => some (.bool (a = b))
  | .ne => some (.bool (a ≠ b))
  | .lt => some (.bool (a < b))
  | .le => some (.bool (a ≤ b))
  | .gt => some (.bool (b < a))
  | .ge => some (.bool (b ≤ a))
  | op => ops.binary op (.time a) (.time b)

/-- Value of a binary operator on constants. -/
def foldBinary (ops : ConstantOps) (op : BinaryOp) (x y : Literal) : Option Literal :=
  match x, y with
  | .integer a, .integer b => foldInteger ops op a b
  | .bool a, .bool b => foldBool ops op a b
  | .time a, .time b => foldTime ops op a b
  | x, y => ops.binary op x y

/-- Value of a unary operator on a constant; the sign of a real is its highest bit. -/
def foldUnary (ops : ConstantOps) (op : UnaryOp) (x : Literal) : Option Literal :=
  match op, x with
  | .neg, .integer a => some (.integer (-a))
  | .neg, .real bits => some (.real (bits ^^^ BitVec.intMin 64))
  | .neg, .time ns => some (.time (-ns))
  | .not, .bool a => some (.bool !a)
  | op, x => ops.unary op x

/-- An expression of literals and operators alone. -/
def Expression.isConstant : Expression → Bool
  | .literal _ => true
  | .paren inner => inner.isConstant
  | .unary _ operand => operand.isConstant
  | .binary left _ right => left.isConstant && right.isConstant
  | .variable _ | .arrayAccess .. | .fieldAccess .. | .call .. => false

/-- Value of a constant expression, if it has one. -/
def Expression.constant (ops : ConstantOps) : Expression → Option Literal
  | .literal lit => some lit
  | .paren inner => inner.constant ops
  | .unary op operand => (operand.constant ops).bind (foldUnary ops op)
  | .binary left op right =>
    match left.constant ops, right.constant ops with
    | some x, some y => foldBinary ops op x y
    | _, _ => none
  | .variable _ | .arrayAccess .. | .fieldAccess .. | .call .. => none

/-- Smallest and largest value of an integer or bit-string type. -/
def DataType.intRange : DataType → Option (Int × Int)
  | .sint => some (-2 ^ 7, 2 ^ 7 - 1)
  | .int => some (-2 ^ 15, 2 ^ 15 - 1)
  | .dint => some (-2 ^ 31, 2 ^ 31 - 1)
  | .lint => some (-2 ^ 63, 2 ^ 63 - 1)
  | .usint | .byte => some (0, 2 ^ 8 - 1)
  | .uint | .word => some (0, 2 ^ 16 - 1)
  | .udint | .dword => some (0, 2 ^ 32 - 1)
  | .ulint | .lword => some (0, 2 ^ 64 - 1)
  | _ => none

/-- The little-endian number that represents a constant of a type, if the constant is of the type.
Truth values, integers, durations and LREAL constants have their usual representation; the remaining
constants have that of `ops`. -/
def constantBits (ops : ConstantOps) (ty : DataType) (lit : Literal) : Option Nat :=
  match ty, lit with
  | .bool, .bool v => some (if v then 1 else 0)
  | .lreal, .real bits => some bits.toNat
  | .time, .time ns => some (ns % 2 ^ 64).toNat
  | ty, .integer n =>
    match ty.intRange with
    | some (low, high) =>
      if low ≤ n ∧ n ≤ high then some (n % 256 ^ ty.storage).toNat else none
    | none => ops.bits ty (.integer n)
  | ty, lit => ops.bits ty lit

/-- What the memory of a variable should hold at the start: its constant initial value, else zero.
Nothing represents a constant expression without a value, such as `1 / 0`. -/
def expectedBits (ops : ConstantOps) (init : Option Expression) (ty : DataType) : Option Nat :=
  match init with
  | some e => if e.isConstant then (e.constant ops).bind (constantBits ops ty) else some 0
  | none => some 0

example (ops : ConstantOps) : expectedBits ops (some (.binary (.literal (.time 1000000000)) .add
    (.literal (.time 2000000000)))) .time = some 3000000000 := rfl

/-! ## The start of an instance -/

/-- The memory before the first step: that of the new instance, after a call of the `init` export
where there is one. `run` calls the function with the given index. -/
def startMemory (run : Nat → Memory → Option Memory) (m : Wasm.Module) : Option Memory :=
  m.initialMemory.bind fun mem =>
    match m.exports.find? (fun e => e.name == "init") with
    | some e => run e.index mem
    | none => some mem

/-- The initialisers of the variables of a POU, parallel to its types. -/
def ProgramUnit.initialisers (unit : ProgramUnit) : List (Option Expression) :=
  unit.result.toList.map (fun _ => none) ++ unit.declarations.map fun d => d.decl.initialValue

/-- The memory holds the initial value of every variable of the POU. -/
def HoldsInitialValues (ops : ConstantOps) (mem : Memory) (unit : ProgramUnit)
    (pou : TypedPou) : Prop :=
  ∀ p ∈ unit.initialisers.zip pou.symbols.infos, ∃ v,
    expectedBits ops p.1 p.2.dataType = some v ∧ mem.read p.2.offset p.2.size = some v

/-- Before the first step, the memory holds the initial value of every variable of the unit. -/
def Initialised (ops : ConstantOps) (run : Nat → Memory → Option Memory)
    (ast : CompilationUnit) (typed : TypedUnit) (m : Wasm.Module) : Prop :=
  ∃ mem, startMemory run m = some mem ∧
    List.Forall₂ (HoldsInitialValues ops mem) ast.units typed.units

/-- The variables of a POU end within one page, and every constant initial value is zero. -/
structure ProgramUnit.ZeroInitialised (ops : ConstantOps) (unit : ProgramUnit) : Prop where
  inside : ∀ t ∈ unit.spans, t.stop ≤ pageSize
  zero : ∀ p ∈ unit.initialisers.zip unit.types, expectedBits ops p.1 p.2 = some 0

theorem stepExports_name : ∀ (pous : List TypedPou) (i : Nat), ∀ e ∈ stepExports pous i,
    e.name = "step"
  | [], _, _, h => by cases h
  | pou :: rest, i, e, h => by
    rw [stepExports] at h
    split at h
    · rcases List.mem_cons.1 h with rfl | h
      · rfl
      · exact stepExports_name rest (i + 1) e h
    · exact stepExports_name rest (i + 1) e h

/-- A new instance starts with one zero page: the module has neither data nor an `init` export. -/
theorem startMemory_module (run : Nat → Memory → Option Memory) (typed : TypedUnit) :
    startMemory run typed.module = some (.zeroed pageSize) := by
  have hinit : typed.module.initialMemory = some (.zeroed pageSize) := by
    show some (Memory.zeroed (1 * pageSize)) = _
    rw [Nat.one_mul]
  have hfind : typed.module.exports.find? (fun e => e.name == "init") = none := by
    rw [List.find?_eq_none]
    intro e he
    rcases List.mem_append.1 he with he | he
    · rw [stepExports_name _ _ e he]
      decide
    · rcases List.mem_singleton.1 he with rfl
      decide
  rw [startMemory, hinit]
  show (match typed.module.exports.find? (fun e => e.name == "init") with
    | some e => run e.index _
    | none => some _) = _
  rw [hfind]

theorem read_zeroed (size a n : Nat) :
    (Memory.zeroed size).read a n = if a + n ≤ size then some 0 else none := by
  rw [Memory.read, Memory.value_zeroed, Memory.size_zeroed]

theorem length_initialisers (unit : ProgramUnit) :
    unit.initialisers.length = unit.types.length := by
  simp [ProgramUnit.initialisers, ProgramUnit.types]

theorem checks_holds_iff {b : Build} {functions : List (String × FunctionSignature)}
    {ops : ConstantOps} {unit : ProgramUnit} {pou : TypedPou}
    (h : Checks b functions unit pou) :
    HoldsInitialValues ops (.zeroed pageSize) unit pou ↔ unit.ZeroInitialised ops := by
  obtain ⟨tc', spans, hd, hs⟩ := checks_declares h
  have hlen : unit.initialisers.length = pou.symbols.infos.length := by
    rw [hs, length_initialisers, ← hd.map_dataType, List.length_map]
  constructor
  · intro hhold
    -- a value can be read only inside the page, and it is zero
    have hread : ∀ p ∈ unit.initialisers.zip pou.symbols.infos,
        p.2.span.stop ≤ pageSize ∧ expectedBits ops p.1 p.2.dataType = some 0 := by
      intro p hp
      obtain ⟨v, hv, hr⟩ := hhold p hp
      rw [read_zeroed] at hr
      split at hr
      · rename_i hin
        cases hr
        exact ⟨hin, hv⟩
      · cases hr
    have hin : ∀ t ∈ unit.resultSpan ++ spans, t.stop ≤ pageSize := by
      intro t ht
      rw [← hd.map_span, ← hs] at ht
      obtain ⟨info, hi, rfl⟩ := List.mem_map.1 ht
      have hsnd : (unit.initialisers.zip pou.symbols.infos).map Prod.snd = pou.symbols.infos :=
        List.map_snd_zip (Nat.le_of_eq hlen.symm)
      rw [← hsnd] at hi
      obtain ⟨p, hp, rfl⟩ := List.mem_map.1 hi
      exact (hread p hp).1
    constructor
    · rw [← hd.spans_within (.inl hin)]
      exact hin
    · intro p hp
      rw [← hd.map_dataType, ← hs, List.zip_map_right] at hp
      obtain ⟨q, hq, rfl⟩ := List.mem_map.1 hp
      exact (hread q hq).2
  · rintro ⟨hin, hzero⟩ p hp
    refine ⟨0, ?_, ?_⟩
    · apply hzero (p.1, p.2.dataType)
      rw [← hd.map_dataType, ← hs, List.zip_map_right]
      exact List.mem_map.2 ⟨p, hp, rfl⟩
    · have hmem : p.2.span ∈ unit.spans := by
        rw [← hd.spans_within (.inr hin), ← hd.map_span, ← hs]
        exact List.mem_map.2 ⟨p.2, (List.of_mem_zip hp).2, rfl⟩
      have hstop : p.2.offset + p.2.size ≤ pageSize := hin _ hmem
      rw [read_zeroed, if_pos hstop]

theorem forall₂_iff_forall {α β : Type} {R P : α → β → Prop} {Q : α → Prop} {as : List α}
    {bs : List β} (h : List.Forall₂ R as bs) (hPQ : ∀ a b, R a b → (P a b ↔ Q a)) :
    List.Forall₂ P as bs ↔ ∀ a ∈ as, Q a := by
  induction h with
  | nil => simp
  | cons hab _ ih => simp [ih, hPQ _ _ hab]

/-- Before the first step the memory holds the declared initial values exactly when the variables of
each POU end within the page and every constant initial value is zero. -/
theorem initialised_iff (ops : ConstantOps) (run : Nat → Memory → Option Memory) {b : Build}
    {ast : CompilationUnit} {typed : TypedUnit} {m : Wasm.Module} (h : check b ast = .ok typed)
    (hm : emit (lower typed) = .ok m) :
    Initialised ops run ast typed m ↔ ∀ unit ∈ ast.units, unit.ZeroInitialised ops := by
  obtain rfl := emit_lower_ok hm
  have hall := forall₂_iff_forall (P := HoldsInitialValues ops (.zeroed pageSize))
    (Q := ProgramUnit.ZeroInitialised ops) (check_ok h) fun _ _ hc => checks_holds_iff hc
  rw [Initialised, startMemory_module, ← hall]
  constructor
  · rintro ⟨mem, hmem, hhold⟩
    cases hmem
    exact hhold
  · intro hhold
    exact ⟨_, rfl, hhold⟩

/-- Truth values, integers, durations and LREAL constants only. -/
def bareOps : ConstantOps := ⟨fun _ _ _ => none, fun _ _ => none, fun _ _ => none⟩

theorem initialised_zero : ∃ typed m,
    check .debug (declarationUnit [⟨"x", .int, some (.literal (.integer 0))⟩]) = .ok typed ∧
      emit (lower typed) = .ok m ∧
      Initialised bareOps (fun _ mem => some mem)
        (declarationUnit [⟨"x", .int, some (.literal (.integer 0))⟩]) typed m := by
  obtain ⟨typed, m, ht, hm⟩ := compile_ok .debug
    (declarationUnit [⟨"x", .int, some (.literal (.integer 0))⟩]) (by decide)
  refine ⟨typed, m, ht, hm, (initialised_iff _ _ ht hm).2 ?_⟩
  intro unit hu
  rcases List.mem_singleton.1 hu with rfl
  exact ⟨by decide, by decide⟩

/-- The initial value of `x : INT := 5` is lost. -/
theorem initialised_fails : ¬ ∀ (b : Build) (ast : CompilationUnit) (typed : TypedUnit)
    (m : Wasm.Module), check b ast = .ok typed → emit (lower typed) = .ok m →
      Initialised bareOps (fun _ mem => some mem) ast typed m := by
  intro h
  obtain ⟨typed, m, ht, hm⟩ := compile_ok .debug
    (declarationUnit [⟨"x", .int, some (.literal (.integer 5))⟩]) (by decide)
  obtain ⟨mem, hmem, hhold⟩ := h _ _ typed m ht hm
  obtain rfl := emit_lower_ok hm
  rw [startMemory_module] at hmem
  cases hmem
  obtain ⟨pou, hpou, hc⟩ := (forall₂_getElem? (check_ok ht) 0).1 _ rfl
  obtain ⟨unit, hunit, hholds⟩ := (forall₂_getElem? hhold 0).2 pou hpou
  cases hunit
  have hzero := ((checks_holds_iff hc).1 hholds).zero
  revert hzero
  decide

end VirtualPlc.Compiler
