import VirtualPlc.Compiler.Access
import VirtualPlc.Compiler.Emission
import VirtualPlc.Compiler.Layout
import VirtualPlc.Word.Signed

/-!
# Meaning of integer and BOOL expressions

`Expression.meaning` is the mathematical value of an expression over the bytes of its variables.
`preserved_iff`: the code of an expression and of all its subexpressions computes these values
exactly when every negated operand is zero and no unsigned variable has its highest bit set.
-/

set_option autoImplicit false

namespace VirtualPlc.Compiler

open VirtualPlc.Word VirtualPlc.Wasm VirtualPlc.Control

/-! ## The expressions -/

/-- BOOL and the integer and bit-string types of at most 32 bits, except UDINT and DWORD. -/
def DataType.isSmall : DataType → Bool
  | .bool | .sint | .int | .dint | .usint | .uint | .byte | .word => true
  | _ => false

/-- Types without negative values. -/
def DataType.isUnsigned : DataType → Bool
  | .usint | .uint | .byte | .word => true
  | _ => false

/-- Arithmetic, comparisons and logic. -/
def BinaryOp.isBasic : BinaryOp → Bool
  | .add | .sub | .mul | .eq | .ne | .lt | .le | .gt | .ge | .and | .or | .xor => true
  | _ => false

/-- The node at the root of the expression is one of those considered. -/
def Expression.Basic (tc : TypeChecker) : Expression → Prop
  | .literal (.bool _) | .literal (.integer _) => True
  | .variable name => ∃ info, tc.symbols.vars.lookup name = some info ∧ info.dataType.isSmall = true
  | .binary _ op _ => op.isBasic = true
  | .unary .. | .paren _ => True
  | .literal _ | .arrayAccess .. | .fieldAccess .. | .call .. => False

/-- The subexpressions of an expression, itself included. -/
def Expression.subs : Expression → List Expression
  | .binary left op right => .binary left op right :: (left.subs ++ right.subs)
  | .unary op operand => .unary op operand :: operand.subs
  | .paren inner => .paren inner :: inner.subs
  | .literal lit => [.literal lit]
  | .variable name => [.variable name]
  | .arrayAccess array index => [.arrayAccess array index]
  | .fieldAccess object field => [.fieldAccess object field]
  | .call name arguments => [.call name arguments]

/-- A property of every subexpression. -/
def Expression.Everywhere (P : Expression → Prop) (e : Expression) : Prop := ∀ sub ∈ e.subs, P sub

/-! ## Mathematical values -/

/-- A truth value as an integer. -/
def truth (p : Prop) [Decidable p] : Int := if p then 1 else 0

/-- The value of a variable whose little-endian bytes are `x`. -/
def DataType.integer (ty : DataType) (x : Nat) : Int :=
  match ty with
  | .sint => (BitVec.ofNat 8 x).toInt
  | .int => (BitVec.ofNat 16 x).toInt
  | .dint => (BitVec.ofNat 32 x).toInt
  | _ => x

/-- The value of a binary operator. -/
def BinaryOp.meaning (op : BinaryOp) (x y : Int) : Option Int :=
  match op with
  | .add => some (x + y)
  | .sub => some (x - y)
  | .mul => some (x * y)
  | .eq => some (truth (x = y))
  | .ne => some (truth (x ≠ y))
  | .lt => some (truth (x < y))
  | .le => some (truth (x ≤ y))
  | .gt => some (truth (y < x))
  | .ge => some (truth (y ≤ x))
  | .and => some (truth (x ≠ 0 ∧ y ≠ 0))
  | .or => some (truth (x ≠ 0 ∨ y ≠ 0))
  | .xor => some (truth (¬ (x ≠ 0 ↔ y ≠ 0)))
  | _ => none

/-- The value of a unary operator. -/
def UnaryOp.meaning (op : UnaryOp) (x : Int) : Int :=
  match op with
  | .neg => -x
  | .not => 1 - x

/-- The value of an expression over the bytes of its variables; `none` where a variable is not in
memory. -/
def Expression.meaning (tc : TypeChecker) (mem : Memory) : Expression → Option Int
  | .literal (.bool v) => some (truth (v = true))
  | .literal (.integer n) => some n
  | .variable name =>
    (tc.symbols.vars.lookup name).bind fun info =>
      (mem.read info.offset info.dataType.storage).map info.dataType.integer
  | .binary left op right =>
    (left.meaning tc mem).bind fun x => (right.meaning tc mem).bind fun y => op.meaning x y
  | .unary op operand => (operand.meaning tc mem).map op.meaning
  | .paren inner => inner.meaning tc mem
  | .literal _ | .arrayAccess .. | .fieldAccess .. | .call .. => none

/-- The byte of a BOOL variable is 0 or 1. -/
def Expression.BoolByte (tc : TypeChecker) (mem : Memory) : Expression → Prop
  | .variable name => ∀ info, tc.symbols.vars.lookup name = some info → info.dataType = .bool →
      mem.byte info.offset = 0 ∨ mem.byte info.offset = 1
  | _ => True

/-- The value of the expression is within 32 bits. -/
def Expression.InRange (tc : TypeChecker) (mem : Memory) (e : Expression) : Prop :=
  ∀ v, e.meaning tc mem = some v → InSigned 32 v

/-- What is assumed of an expression and of the memory of an instance. -/
structure Admissible (tc : TypeChecker) (mem : Memory) (e : Expression) : Prop where
  basic : e.Everywhere (Expression.Basic tc)
  bools : e.Everywhere (Expression.BoolByte tc mem)
  range : e.Everywhere (Expression.InRange tc mem)
  size : mem.size = pageSize

/-- The lowered expression pushes exactly its mathematical value. -/
def Preserved (b : Build) (tc : TypeChecker) (mem : Memory) (e : Expression) : Prop :=
  ∃ v t, e.meaning tc mem = some v ∧ tc.checkExpr b e = .ok t ∧
    ∀ (emitter : WasmEmitter) (s : IrLowerer) (env : Env Bounds) (n : Nat) (st l : List Value),
      ∃ code, emitter.treeOf (lowerExpr t) s = some code ∧
        execSeq (machine env) n code ⟨st, l, mem⟩ =
          .normal ⟨.i32 (BitVec.ofInt 32 v) :: st, l, mem⟩

/-- The root of the expression is lowered as it is meant: a negated operand is zero, and a variable
is in memory, with its highest bit clear where it is unsigned. -/
def Expression.Harmless (tc : TypeChecker) (mem : Memory) : Expression → Prop
  | .variable name => ∀ info, tc.symbols.vars.lookup name = some info →
      info.offset + info.dataType.storage ≤ pageSize ∧
        (info.dataType.isUnsigned = true →
          2 * mem.value info.offset info.dataType.storage < 256 ^ info.dataType.storage)
  | .unary .neg operand => ∀ v, operand.meaning tc mem = some v → v = 0
  | _ => True

/-! ## Subexpressions -/

theorem Expression.self_mem_subs (e : Expression) : e ∈ e.subs := by
  cases e <;> exact List.mem_cons_self

theorem Expression.subs_trans {e sub x : Expression} (h : sub ∈ e.subs) (hx : x ∈ sub.subs) :
    x ∈ e.subs := by
  fun_induction Expression.subs e with
  | case1 left op right ihl ihr =>
    rcases List.mem_cons.1 h with rfl | h
    · exact hx
    · rcases List.mem_append.1 h with h | h
      · exact List.mem_cons_of_mem _ (List.mem_append_left _ (ihl h))
      · exact List.mem_cons_of_mem _ (List.mem_append_right _ (ihr h))
  | case2 op operand ih =>
    rcases List.mem_cons.1 h with rfl | h
    · exact hx
    · exact List.mem_cons_of_mem _ (ih h)
  | case3 inner ih =>
    rcases List.mem_cons.1 h with rfl | h
    · exact hx
    · exact List.mem_cons_of_mem _ (ih h)
  | case4 | case5 | case6 | case7 | case8 =>
    rcases List.mem_singleton.1 h with rfl
    exact hx

theorem Expression.Everywhere.root {P : Expression → Prop} {e : Expression} (h : e.Everywhere P) :
    P e := h e e.self_mem_subs

theorem Expression.Everywhere.sub {P : Expression → Prop} {e sub : Expression}
    (h : e.Everywhere P) (hs : sub ∈ e.subs) : sub.Everywhere P :=
  fun _ hx => h _ (Expression.subs_trans hs hx)

theorem Admissible.sub {tc : TypeChecker} {mem : Memory} {e sub : Expression}
    (h : Admissible tc mem e) (hs : sub ∈ e.subs) : Admissible tc mem sub :=
  ⟨h.basic.sub hs, h.bools.sub hs, h.range.sub hs, h.size⟩

section Everywhere

variable {P : Expression → Prop} {left right operand : Expression}

@[simp] theorem Expression.everywhere_literal {lit : Literal} :
    (Expression.literal lit).Everywhere P ↔ P (.literal lit) := by
  simp [Expression.Everywhere, Expression.subs]

@[simp] theorem Expression.everywhere_variable {name : String} :
    (Expression.variable name).Everywhere P ↔ P (.variable name) := by
  simp [Expression.Everywhere, Expression.subs]

@[simp] theorem Expression.everywhere_unary {op : UnaryOp} :
    (Expression.unary op operand).Everywhere P ↔ P (.unary op operand) ∧ operand.Everywhere P := by
  simp [Expression.Everywhere, Expression.subs]

@[simp] theorem Expression.everywhere_binary {op : BinaryOp} :
    (Expression.binary left op right).Everywhere P ↔
      P (.binary left op right) ∧ left.Everywhere P ∧ right.Everywhere P := by
  simp only [Expression.Everywhere, Expression.subs, List.forall_mem_cons, List.forall_mem_append]

end Everywhere

section Children

variable {l r x : Expression} {o : BinaryOp} {u : UnaryOp}

theorem left_mem_subs : l ∈ (Expression.binary l o r).subs :=
  List.mem_cons_of_mem _ (List.mem_append_left _ l.self_mem_subs)

theorem right_mem_subs : r ∈ (Expression.binary l o r).subs :=
  List.mem_cons_of_mem _ (List.mem_append_right _ r.self_mem_subs)

theorem operand_mem_subs : x ∈ (Expression.unary u x).subs :=
  List.mem_cons_of_mem _ x.self_mem_subs

theorem inner_mem_subs : x ∈ (Expression.paren x).subs :=
  List.mem_cons_of_mem _ x.self_mem_subs

end Children

/-- The subexpressions of an accepted expression are accepted. -/
theorem checkExpr_subs {b : Build} {tc : TypeChecker} {e sub : Expression} {t : TypedExpr}
    (h : tc.checkExpr b e = .ok t) (hs : sub ∈ e.subs) : ∃ t', tc.checkExpr b sub = .ok t' := by
  fun_induction Expression.subs e generalizing t with
  | case1 left op right ihl ihr =>
    rcases List.mem_cons.1 hs with rfl | hs
    · exact ⟨t, h⟩
    · rw [TypeChecker.checkExpr] at h
      obtain ⟨l, hl, h⟩ := bind_eq_ok.1 h
      obtain ⟨r, hr, h⟩ := bind_eq_ok.1 h
      rcases List.mem_append.1 hs with hs | hs
      · exact ihl hl hs
      · exact ihr hr hs
  | case2 op operand ih =>
    rcases List.mem_cons.1 hs with rfl | hs
    · exact ⟨t, h⟩
    · rw [TypeChecker.checkExpr] at h
      obtain ⟨x, hx, h⟩ := bind_eq_ok.1 h
      exact ih hx hs
  | case3 inner ih =>
    rcases List.mem_cons.1 hs with rfl | hs
    · exact ⟨t, h⟩
    · rw [TypeChecker.checkExpr] at h
      exact ih h hs
  | case4 | case5 | case6 | case7 | case8 =>
    rcases List.mem_singleton.1 hs with rfl
    exact ⟨t, h⟩

/-! ## Running the operators -/

theorem boolValue_decide (p : Prop) [Decidable p] :
    boolValue (decide p) = .i32 (BitVec.ofInt 32 (truth p)) := by
  by_cases h : p
  · simp [boolValue, truth, h]
  · simp [boolValue, truth, h]

theorem truth_eq (p : Prop) [Decidable p] : truth p = 0 ∨ truth p = 1 := by
  rw [truth]
  split
  · exact .inr rfl
  · exact .inl rfl

theorem numericPromotion_isSmall {l r : DataType} (hl : l.isSmall = true) (hr : r.isSmall = true) :
    (numericPromotion l r).isSmall = true ∧ numericPromotion l r ≠ .bool := by
  rw [numericPromotion]
  rw [if_neg (by rintro (rfl | rfl) <;> simp [DataType.isSmall] at hl hr),
    if_neg (by rintro (rfl | rfl) <;> simp [DataType.isSmall] at hl hr),
    if_neg (by rintro (rfl | rfl) <;> simp [DataType.isSmall] at hl hr)]
  split
  · exact ⟨rfl, by decide⟩
  · exact ⟨rfl, by decide⟩

/-- Type of a binary operator on small operands: BOOL for comparisons and logic, which needs BOOL
operands, and an integer type for arithmetic. -/
theorem binaryResultType_basic {l r ty : DataType} {op : BinaryOp} (hl : l.isSmall = true)
    (hr : r.isSmall = true) (hop : op.isBasic = true) (h : binaryResultType l op r = .ok ty) :
    ty.isSmall = true ∧ (op = .and ∨ op = .or ∨ op = .xor → l = .bool ∧ r = .bool) ∧
      (op = .add ∨ op = .sub ∨ op = .mul → ty ≠ .bool) := by
  have hpromote := numericPromotion_isSmall hl hr
  have hlogic : ∀ {x : Except Failure DataType},
      (if l = .bool ∧ r = .bool then .ok .bool else x) = .ok ty →
      x = .error (.err "Logical operators require BOOL operands") →
        ty = .bool ∧ l = .bool ∧ r = .bool := by
    intro x hx he
    split at hx
    · rename_i hb
      cases hx
      exact ⟨rfl, hb⟩
    · rw [he] at hx
      cases hx
  cases op with
  | add | sub | mul =>
    cases h
    exact ⟨hpromote.1, by simp, fun _ => hpromote.2⟩
  | eq | ne | lt | le | gt | ge =>
    cases h
    exact ⟨rfl, by simp, by simp⟩
  | and | or | xor =>
    obtain ⟨rfl, hb⟩ := hlogic h rfl
    exact ⟨rfl, fun _ => hb, by simp⟩
  | _ => cases hop

theorem selectOp_small {ty : DataType} (h : ty.isSmall = true) (i32 i64 f32 f64 : Op) :
    selectOp ty i32 i64 f32 f64 = i32 := by
  cases ty <;> first | rfl | cases h

/-- A basic operator on small operands computes its mathematical value. -/
theorem stepOp_binaryOp {op : BinaryOp} {ty : DataType} {x y v : Int} (env : Env Bounds)
    (st l : List Value) (m : Memory) (hty : ty.isSmall = true) (hop : op.isBasic = true)
    (hx : InSigned 32 x) (hy : InSigned 32 y)
    (hbool : op = .and ∨ op = .or ∨ op = .xor → (x = 0 ∨ x = 1) ∧ (y = 0 ∨ y = 1))
    (hv : op.meaning x y = some v) :
    stepOp env (binaryOp op ty) ⟨.i32 (BitVec.ofInt 32 y) :: .i32 (BitVec.ofInt 32 x) :: st, l, m⟩ =
      .normal ⟨.i32 (BitVec.ofInt 32 v) :: st, l, m⟩ := by
  have h32 : 0 < 32 := by decide
  cases op with
  | add | sub | mul =>
    cases hv
    simp [binaryOp, selectOp_small hty, IntBin.eval, BitVec.ofInt_add, ofInt_sub, BitVec.ofInt_mul]
  | eq =>
    cases hv
    simp only [binaryOp, selectOp_small hty, stepOp_i32Rel, IntRel.eval, beq_ofInt h32 hx hy,
      boolValue_decide]
  | ne =>
    cases hv
    have hne : (BitVec.ofInt 32 x != BitVec.ofInt 32 y) = decide (x ≠ y) := by
      rw [bne, beq_ofInt h32 hx hy, decide_not]
    simp only [binaryOp, stepOp_i32Rel, IntRel.eval, hne, boolValue_decide]
  | lt =>
    cases hv
    simp only [binaryOp, selectOp_small hty, stepOp_i32Rel, IntRel.eval, slt_ofInt h32 hx hy,
      boolValue_decide]
  | le =>
    cases hv
    simp only [binaryOp, stepOp_i32Rel, IntRel.eval, sle_ofInt h32 hx hy, boolValue_decide]
  | gt =>
    cases hv
    simp only [binaryOp, selectOp_small hty, stepOp_i32Rel, IntRel.eval, slt_ofInt h32 hy hx,
      boolValue_decide]
  | ge =>
    cases hv
    simp only [binaryOp, stepOp_i32Rel, IntRel.eval, sle_ofInt h32 hy hx, boolValue_decide]
  | and | or | xor =>
    cases hv
    -- bitwise operators are logical ones on truth values
    obtain ⟨rfl | rfl, rfl | rfl⟩ := hbool (by simp) <;> rfl
  | _ => cases hop

/-- NOT on a truth value. -/
theorem stepOps_not {x : Int} (env : Env Bounds) (n : Nat) (st l : List Value) (m : Memory)
    (ty : DataType) (hx : x = 0 ∨ x = 1) :
    execSeq (machine env) n (ops (unaryOps .not ty)) ⟨.i32 (BitVec.ofInt 32 x) :: st, l, m⟩ =
      .normal ⟨.i32 (BitVec.ofInt 32 (1 - x)) :: st, l, m⟩ := by
  rcases hx with rfl | rfl <;> rfl

/-- The code of a unary minus leaves its operand unchanged. -/
theorem stepOps_neg {ty : DataType} (x : BitVec 32) (env : Env Bounds) (n : Nat)
    (st l : List Value) (m : Memory) (hty : ty.isSmall = true) :
    execSeq (machine env) n (ops (unaryOps .neg ty)) ⟨.i32 x :: st, l, m⟩ =
      .normal ⟨.i32 x :: st, l, m⟩ := by
  have hops : unaryOps .neg ty = [.const (.i32 0), .i32Bin .sub] := by
    cases ty <;> first | rfl | cases hty
  rw [hops]
  simp [IntBin.eval]

/-! ## Literals and variables -/

theorem checkLiteral_integer {v : Int} (h : InSigned 32 v) :
    ∃ ty bits, checkLiteral (.integer v) = .ok (.literal (.integer v bits) ty) ∧ bits ≤ 32 ∧
      ty.isSmall = true ∧ ty ≠ .bool := by
  obtain ⟨hlow, hhigh⟩ := h
  have hbits : literalBits v = 8 ∨ literalBits v = 16 ∨ literalBits v = 32 := by
    rw [literalBits]
    split
    · exact .inl rfl
    · split
      · exact .inr (.inl rfl)
      · rw [if_pos (by omega)]
        exact .inr (.inr rfl)
  rcases hbits with hb | hb | hb
  · exact ⟨.sint, 8, by rw [checkLiteral, hb]; rfl, by decide, rfl, by decide⟩
  · exact ⟨.int, 16, by rw [checkLiteral, hb]; rfl, by decide, rfl, by decide⟩
  · exact ⟨.dint, 32, by rw [checkLiteral, hb]; rfl, by decide, rfl, by decide⟩

theorem storage_small {ty : DataType} (h : ty.isSmall = true) : ty.storage = ty.accessWidth := by
  cases ty <;> first | rfl | cases h

/-- Where the highest bit of an unsigned variable is clear, the load computes the variable's value.
-/
theorem decode_small {ty : DataType} {x : Nat} (h : ty.isSmall = true)
    (hbool : ty = .bool → x = 0 ∨ x = 1)
    (hunsigned : ty.isUnsigned = true → 2 * x < 256 ^ ty.storage) :
    ty.decode x = .i32 (BitVec.ofInt 32 (ty.integer x)) := by
  cases ty with
  | bool => rcases hbool rfl with rfl | rfl <;> rfl
  | sint | int => rfl
  | dint =>
    show Value.i32 (BitVec.ofNat 32 x) = .i32 (BitVec.ofInt 32 (BitVec.ofNat 32 x).toInt)
    rw [BitVec.ofInt_toInt]
  | usint | byte =>
    have hx : 2 * x < 2 ^ 8 := hunsigned rfl
    show Value.i32 ((BitVec.ofNat 8 x).signExtend 32) = .i32 (BitVec.ofInt 32 x)
    rw [signExtend_eq_ofInt, toInt_ofNat_of_lt hx]
  | uint | word =>
    have hx : 2 * x < 2 ^ 16 := hunsigned rfl
    show Value.i32 ((BitVec.ofNat 16 x).signExtend 32) = .i32 (BitVec.ofInt 32 x)
    rw [signExtend_eq_ofInt, toInt_ofNat_of_lt hx]
  | _ => cases h

/-- A sign-extended number of at most 16 bits keeps its value only below half of its range. -/
theorem lt_of_signExtend {w x : Nat} (hw : 0 < w) (hw16 : w ≤ 16) (hx : x < 2 ^ w)
    (h : (BitVec.ofNat w x).signExtend 32 = BitVec.ofInt 32 (x : Int)) : 2 * x < 2 ^ w := by
  have hpow : (2 : Nat) ^ w ≤ 2 ^ 16 := Nat.pow_le_pow_right (by decide) hw16
  have hle := BitVec.toInt_lt (x := BitVec.ofNat w x)
  have hge := BitVec.le_toInt (x := BitVec.ofNat w x)
  have hpow' : (2 : Int) ^ (w - 1) ≤ 2 ^ 15 := by
    have hp : (2 : Nat) ^ (w - 1) ≤ 2 ^ 15 := Nat.pow_le_pow_right (by decide) (by omega)
    exact_mod_cast hp
  rw [signExtend_eq_ofInt] at h
  rw [ofInt_inj_of_inSigned (by decide)] at h
  · obtain ⟨k, rfl⟩ : ∃ k, w = k + 1 := ⟨w - 1, by omega⟩
    rw [Nat.add_sub_cancel] at hle
    rw [h] at hle
    have hlt : x < 2 ^ k := by exact_mod_cast hle
    rw [Nat.pow_succ]
    omega
  · constructor <;> simp only [Nat.reduceSub] <;> omega
  · constructor <;> simp only [Nat.reduceSub] <;> omega

theorem unsigned_of_decode {ty : DataType} {x : Nat} (h : ty.isUnsigned = true)
    (hx : x < 256 ^ ty.storage) (hd : ty.decode x = .i32 (BitVec.ofInt 32 (ty.integer x))) :
    2 * x < 256 ^ ty.storage := by
  cases ty with
  | usint | byte =>
    have hd' : (BitVec.ofNat 8 x).signExtend 32 = BitVec.ofInt 32 (x : Int) := Value.i32.inj hd
    exact lt_of_signExtend (w := 8) (by decide) (by decide) hx hd'
  | uint | word =>
    have hd' : (BitVec.ofNat 16 x).signExtend 32 = BitVec.ofInt 32 (x : Int) := Value.i32.inj hd
    exact lt_of_signExtend (w := 16) (by decide) (by decide) hx hd'
  | _ => cases h

/-! ## The code of an expression -/

/-- A checked basic expression: its code calls nothing, and its type is small. -/
theorem checkExpr_basic {b : Build} {tc : TypeChecker} {mem : Memory} {e : Expression}
    {t : TypedExpr} (h : Admissible tc mem e) (ht : tc.checkExpr b e = .ok t) :
    exprCalls t = [] ∧ t.ty.isSmall = true := by
  fun_induction Expression.subs e generalizing t with
  | case1 left op right ihl ihr =>
    obtain ⟨l, r, ty, hl, hr, hty, rfl⟩ := checkExpr_binary ht
    obtain ⟨hlc, hls⟩ := ihl (h.sub left_mem_subs) hl
    obtain ⟨hrc, hrs⟩ := ihr (h.sub right_mem_subs) hr
    refine ⟨?_, (binaryResultType_basic hls hrs h.basic.root hty).1⟩
    rw [exprCalls, hlc, hrc]
    rfl
  | case2 op operand ih =>
    obtain ⟨x, ty, hx, hty, rfl⟩ := checkExpr_unary ht
    obtain ⟨hc, hs⟩ := ih (h.sub operand_mem_subs) hx
    refine ⟨hc, ?_⟩
    cases op with
    | neg =>
      cases hty
      exact hs
    | not =>
      obtain ⟨-, rfl⟩ := checkUnary_not hty
      rfl
  | case3 inner ih =>
    rw [TypeChecker.checkExpr] at ht
    exact ih (h.sub inner_mem_subs) ht
  | case4 lit =>
    rw [TypeChecker.checkExpr] at ht
    have hb := h.basic.root
    cases lit with
    | bool v =>
      cases ht
      exact ⟨rfl, rfl⟩
    | integer v =>
      obtain ⟨ty, bits, hc, -, hs, -⟩ := checkLiteral_integer (h.range.root v rfl)
      rw [hc] at ht
      cases ht
      exact ⟨rfl, hs⟩
    | _ => cases hb
  | case5 name =>
    obtain ⟨info, hinfo, hs⟩ := h.basic.root
    rw [checkExpr_variable hinfo] at ht
    cases ht
    exact ⟨rfl, hs⟩
  -- calls, elements and fields are not basic
  | case6 | case7 | case8 => cases h.basic.root

/-- The expression `e` has a value, a truth value if it is BOOL, and the code of `t` pushes it. -/
def PushesValue (tc : TypeChecker) (mem : Memory) (e : Expression) (t : TypedExpr) : Prop :=
  ∃ v, e.meaning tc mem = some v ∧ (t.ty = .bool → v = 0 ∨ v = 1) ∧
    ∀ (link : String → Bool → Nat) (env : Env Bounds) (n : Nat) (st l : List Value),
      execSeq (machine env) n (exprCode link t) ⟨st, l, mem⟩ =
        .normal ⟨.i32 (BitVec.ofInt 32 v) :: st, l, mem⟩

section Pushing

variable {b : Build} {tc : TypeChecker} {mem : Memory}

theorem pushesValue_binary {left right : Expression} {op : BinaryOp} {l r : TypedExpr}
    {ty : DataType} (h : Admissible tc mem (.binary left op right))
    (hl : tc.checkExpr b left = .ok l) (hr : tc.checkExpr b right = .ok r)
    (hty : binaryResultType l.ty op r.ty = .ok ty) (hleft : PushesValue tc mem left l)
    (hright : PushesValue tc mem right r) :
    PushesValue tc mem (.binary left op right) (.binary l op r ty) := by
  obtain ⟨x, hx, hxb, hxrun⟩ := hleft
  obtain ⟨y, hy, hyb, hyrun⟩ := hright
  have hal := h.sub (left_mem_subs (o := op) (r := right))
  have har := h.sub (right_mem_subs (l := left) (o := op))
  have hop : op.isBasic = true := h.basic.root
  have hls := (checkExpr_basic hal hl).2
  obtain ⟨-, hlogic, harith⟩ := binaryResultType_basic hls (checkExpr_basic har hr).2 hop hty
  -- the logical operators work on whole words, so their operands must be truth values
  have hvalues : op = .and ∨ op = .or ∨ op = .xor → (x = 0 ∨ x = 1) ∧ (y = 0 ∨ y = 1) := by
    intro ho
    obtain ⟨hlb, hrb⟩ := hlogic ho
    exact ⟨hxb hlb, hyb hrb⟩
  obtain ⟨v, hv⟩ : ∃ v, op.meaning x y = some v := by
    cases op <;> first | exact ⟨_, rfl⟩ | cases hop
  refine ⟨v, ?_, ?_, ?_⟩
  · simp only [Expression.meaning, hx, hy, Option.bind_some, hv]
  · intro hbool
    cases op with
    | add | sub | mul => exact absurd hbool (harith (by simp))
    | eq | ne | lt | le | gt | ge | and | or | xor =>
      cases hv
      exact truth_eq _
    | _ => cases hop
  · intro link env n st l'
    rw [exprCode, execSeq_append, hxrun]
    show execSeq _ _ _ _ = _
    rw [execSeq_append, hyrun]
    show Outcome.andThen (stepOp env (binaryOp op l.ty) _) _ = _
    rw [stepOp_binaryOp env st l' mem hls hop (hal.range.root x hx) (har.range.root y hy)
      hvalues hv]
    rfl

/-- The code subtracts zero from the operand, so the operand has to be zero. -/
theorem pushesValue_neg {operand : Expression} {x : TypedExpr} {ty : DataType}
    (hs : x.ty.isSmall = true) (hharm : Expression.Harmless tc mem (.unary .neg operand))
    (hx : PushesValue tc mem operand x) :
    PushesValue tc mem (.unary .neg operand) (.unary .neg x ty) := by
  obtain ⟨z, hz, hzb, hrun⟩ := hx
  obtain rfl : z = 0 := hharm z hz
  refine ⟨UnaryOp.neg.meaning 0, by simp [Expression.meaning, hz], fun _ => .inl rfl, ?_⟩
  intro link env n st l
  rw [exprCode, execSeq_append, hrun]
  exact stepOps_neg _ env n st l mem hs

theorem pushesValue_not {operand : Expression} {x : TypedExpr} {ty : DataType}
    (hty : x.ty = .bool) (hx : PushesValue tc mem operand x) :
    PushesValue tc mem (.unary .not operand) (.unary .not x ty) := by
  obtain ⟨z, hz, hzb, hrun⟩ := hx
  have htruth := hzb hty
  refine ⟨UnaryOp.not.meaning z, by simp [Expression.meaning, hz], fun _ => ?_, ?_⟩
  · rcases htruth with rfl | rfl
    · exact .inr rfl
    · exact .inl rfl
  · intro link env n st l
    rw [exprCode, execSeq_append, hrun]
    exact stepOps_not env n st l mem x.ty htruth

theorem pushesValue_bool (v : Bool) :
    PushesValue tc mem (.literal (.bool v)) (.literal (.bool v) .bool) := by
  refine ⟨truth (v = true), rfl, fun _ => truth_eq _, ?_⟩
  intro link env n st l
  cases v <;> rfl

theorem pushesValue_integer {v : Int} {t : TypedExpr} (hv : InSigned 32 v)
    (ht : checkLiteral (.integer v) = .ok t) : PushesValue tc mem (.literal (.integer v)) t := by
  obtain ⟨ty, bits, hc, hbits, -, hne⟩ := checkLiteral_integer hv
  rw [hc] at ht
  cases ht
  refine ⟨v, rfl, fun hbool => absurd hbool hne, ?_⟩
  intro link env n st l
  rw [exprCode, literalValue, if_pos hbits]
  rfl

/-- The code of a variable loads its value from the memory. -/
theorem pushesValue_variable {name : String} {info : SymbolInfo}
    (h : Admissible tc mem (.variable name)) (hinfo : tc.symbols.vars.lookup name = some info)
    (hs : info.dataType.isSmall = true) (hharm : Expression.Harmless tc mem (.variable name)) :
    PushesValue tc mem (.variable name) (.variable name info.offset info.dataType) := by
  obtain ⟨hfit, hunsigned⟩ := hharm info hinfo
  have hread : mem.read info.offset info.dataType.storage =
      some (mem.value info.offset info.dataType.storage) :=
    Memory.read_eq (by rw [h.size]; exact hfit)
  -- the memory holds a BOOL as 0 or 1, which the code pushes as it is
  have hboolbyte : info.dataType = .bool →
      mem.value info.offset info.dataType.storage = 0 ∨
        mem.value info.offset info.dataType.storage = 1 := by
    intro hb
    have hone : info.dataType.storage = 1 := by rw [hb]; rfl
    have hbyte := h.bools.root info hinfo hb
    rw [hone, Memory.value, Memory.value]
    rcases hbyte with hbyte | hbyte <;> simp [hbyte]
  refine ⟨info.dataType.integer (mem.value info.offset info.dataType.storage), ?_, ?_, ?_⟩
  · simp [Expression.meaning, hinfo, hread]
  · intro hb
    have hv := hboolbyte hb
    have hty : info.dataType = .bool := hb
    rw [hty] at hv ⊢
    rcases hv with hv | hv
    · left
      rw [hv]
      rfl
    · right
      rw [hv]
      rfl
  · intro link env n st l
    have hpage : pageSize < 2 ^ 32 := by decide
    rw [execSeq_variable, asU32_of_lt (by omega), ← storage_small hs, hread]
    show State.pushOrTrap _ (some _) = _
    rw [decode_small hs hboolbyte hunsigned]
    rfl

/-- The code of a harmless expression pushes its value. -/
theorem execSeq_exprCode {e : Expression} {t : TypedExpr} (h : Admissible tc mem e)
    (ht : tc.checkExpr b e = .ok t) (hharm : e.Everywhere (Expression.Harmless tc mem)) :
    PushesValue tc mem e t := by
  fun_induction Expression.subs e generalizing t with
  | case1 left op right ihl ihr =>
    obtain ⟨l, r, ty, hl, hr, hty, rfl⟩ := checkExpr_binary ht
    exact pushesValue_binary h hl hr hty
      (ihl (h.sub left_mem_subs) hl (hharm.sub left_mem_subs))
      (ihr (h.sub right_mem_subs) hr (hharm.sub right_mem_subs))
  | case2 op operand ih =>
    obtain ⟨x, ty, hx, hty, rfl⟩ := checkExpr_unary ht
    have ha := h.sub (operand_mem_subs (u := op) (x := operand))
    have hpush := ih ha hx (hharm.sub operand_mem_subs)
    cases op with
    | neg => exact pushesValue_neg (checkExpr_basic ha hx).2 hharm.root hpush
    | not => exact pushesValue_not (checkUnary_not hty).1 hpush
  | case3 inner ih =>
    rw [TypeChecker.checkExpr] at ht
    exact ih (h.sub inner_mem_subs) ht (hharm.sub inner_mem_subs)
  | case4 lit =>
    rw [TypeChecker.checkExpr] at ht
    have hb := h.basic.root
    cases lit with
    | bool v =>
      cases ht
      exact pushesValue_bool v
    | integer v => exact pushesValue_integer (h.range.root v rfl) ht
    | _ => cases hb
  | case5 name =>
    obtain ⟨info, hinfo, hs⟩ := h.basic.root
    rw [checkExpr_variable hinfo] at ht
    cases ht
    exact pushesValue_variable h hinfo hs hharm.root
  | case6 | case7 | case8 => cases h.basic.root

end Pushing

/-! ## Preservation -/

section Preservation

variable {b : Build} {tc : TypeChecker} {mem : Memory} {e : Expression} {t : TypedExpr}

/-- The emitted code of a basic expression is `exprCode` without its observations. -/
theorem treeOf_lowerExpr (h : Admissible tc mem e) (ht : tc.checkExpr b e = .ok t)
    (emitter : WasmEmitter) (s : IrLowerer) :
    emitter.treeOf (lowerExpr t) s = some (strip (exprCode emitter.link t)) := by
  refine (lowerExpr_emits emitter t).treeOf ?_ s
  rw [(checkExpr_basic h ht).1]
  rfl

theorem preserved_iff_run (h : Admissible tc mem e) (ht : tc.checkExpr b e = .ok t) :
    Preserved b tc mem e ↔ ∃ v, e.meaning tc mem = some v ∧
      ∀ (emitter : WasmEmitter) (env : Env Bounds) (n : Nat) (st l : List Value),
        execSeq (machine env).unobserved n (exprCode emitter.link t) ⟨st, l, mem⟩ =
          .normal ⟨.i32 (BitVec.ofInt 32 v) :: st, l, mem⟩ := by
  constructor
  · rintro ⟨v, t', hv, ht', hrun⟩
    obtain rfl : t' = t := Except.ok.inj (ht'.symm.trans ht)
    refine ⟨v, hv, ?_⟩
    intro emitter env n st l
    obtain ⟨code, hcode, hcrun⟩ := hrun emitter IrLowerer.new env n st l
    rw [treeOf_lowerExpr h ht] at hcode
    obtain rfl := Option.some.inj hcode
    rw [← execSeq_strip]
    exact hcrun
  · rintro ⟨v, hv, hrun⟩
    refine ⟨v, t, hv, ht, ?_⟩
    intro emitter s env n st l
    refine ⟨_, treeOf_lowerExpr h ht emitter s, ?_⟩
    rw [execSeq_strip]
    exact hrun emitter env n st l

/-- An expression without harmful subexpressions is preserved. -/
theorem preserved_of_harmless (h : Admissible tc mem e) (ht : tc.checkExpr b e = .ok t)
    (hharm : e.Everywhere (Expression.Harmless tc mem)) : Preserved b tc mem e := by
  obtain ⟨v, hv, -, hrun⟩ := execSeq_exprCode h ht hharm
  rw [preserved_iff_run h ht]
  refine ⟨v, hv, ?_⟩
  intro emitter env n st l
  exact hrun emitter.link { env with probe := fun _ _ => none } n st l

/-- A preserved variable is in memory, with its highest bit clear where it is unsigned. -/
theorem harmless_variable {name : String} (h : Admissible tc mem (.variable name))
    (hp : Preserved b tc mem (.variable name)) :
    Expression.Harmless tc mem (.variable name) := by
  intro info hinfo
  obtain ⟨info', hinfo', hs⟩ := h.basic.root
  obtain rfl : info' = info := Option.some.inj (hinfo'.symm.trans hinfo)
  have ht : tc.checkExpr b (.variable name) =
      .ok (.variable name info'.offset info'.dataType) := by
    rw [checkExpr_variable hinfo]
  obtain ⟨v, hv, hrun⟩ := (preserved_iff_run h ht).1 hp
  simp only [Expression.meaning, hinfo, Option.bind_some, Option.map_eq_some_iff] at hv
  obtain ⟨x, hx, rfl⟩ := hv
  have hfit : info'.offset + info'.dataType.storage ≤ mem.size := by
    by_contra hout
    rw [Memory.read, if_neg hout] at hx
    cases hx
  have hvalue := Memory.read_eq hfit
  obtain rfl := Option.some.inj (hvalue.symm.trans hx)
  rw [h.size] at hfit
  refine ⟨hfit, ?_⟩
  intro hu
  apply unsigned_of_decode hu (Memory.value_lt ..)
  have hpage : pageSize < 2 ^ 32 := by decide
  have hload := hrun ⟨[], []⟩ bareEnv 0 [] []
  change execSeq (machine _) 0 _ _ = _ at hload
  rw [execSeq_variable, asU32_of_lt (by omega), ← storage_small hs, hvalue] at hload
  injection hload with hload
  injection hload with hload
  injection hload

/-- Where an operand and its negation are both preserved, the operand is zero. -/
theorem harmless_neg {operand : Expression} (h : Admissible tc mem (.unary .neg operand))
    (ht : tc.checkExpr b (.unary .neg operand) = .ok t)
    (hp : Preserved b tc mem (.unary .neg operand)) (hp' : Preserved b tc mem operand) :
    Expression.Harmless tc mem (.unary .neg operand) := by
  intro z hz
  have hmem := operand_mem_subs (u := .neg) (x := operand)
  have ho := h.sub hmem
  obtain ⟨x, ty, hx, hty, rfl⟩ := checkExpr_unary ht
  obtain ⟨v, hv, hrun⟩ := (preserved_iff_run h ht).1 hp
  obtain ⟨z', hz', hrun'⟩ := (preserved_iff_run ho hx).1 hp'
  obtain rfl : z' = z := Option.some.inj (hz'.symm.trans hz)
  obtain rfl : -z' = v := by
    simp only [Expression.meaning, hz, Option.map_some] at hv
    exact Option.some.inj hv
  have hneg := hrun ⟨[], []⟩ bareEnv 0 [] []
  rw [exprCode, execSeq_append, hrun', Outcome.andThen_normal] at hneg
  change execSeq (machine _) 0 _ _ = _ at hneg
  rw [stepOps_neg _ _ _ _ _ _ (checkExpr_basic ho hx).2] at hneg
  injection hneg with hneg
  injection hneg with hneg
  injection hneg with hneg
  injection hneg with hneg
  have hsame := (ofInt_inj_of_inSigned (by decide) (ho.range.root _ hz) (h.range.root _ hv)).1 hneg
  omega

/-- An expression and all its subexpressions compute their mathematical values exactly when every
negated operand is zero and every variable is in memory, unsigned ones with their highest bit
clear. -/
theorem preserved_iff (h : Admissible tc mem e) (ht : tc.checkExpr b e = .ok t) :
    e.Everywhere (Preserved b tc mem) ↔ e.Everywhere (Expression.Harmless tc mem) := by
  constructor
  · intro hp sub hs
    have hsub := h.sub hs
    obtain ⟨t', ht'⟩ := checkExpr_subs ht hs
    match sub with
    | .variable name => exact harmless_variable hsub (hp _ hs)
    | .unary .neg operand =>
      have ho := hp _ (Expression.subs_trans hs operand_mem_subs)
      exact harmless_neg hsub ht' (hp _ hs) ho
    | .unary .not _ => trivial
    | .literal _ | .binary .. | .paren _ => trivial
    | .arrayAccess .. | .fieldAccess .. | .call .. => trivial
  · intro hharm sub hs
    obtain ⟨t', ht'⟩ := checkExpr_subs ht hs
    exact preserved_of_harmless (h.sub hs) ht' (hharm.sub hs)

end Preservation

/-- The scope of a POU with the one variable `x` of type INT. -/
def intScope : TypeChecker :=
  { TypeChecker.new with symbols := ⟨[("x", ⟨"x", .int, .var, 0x100, 2, false⟩)], []⟩ }

/-- The expression `x + 1`. -/
def successor : Expression := .binary (.variable "x") .add (.literal (.integer 1))

theorem successor_admissible : Admissible intScope (.zeroed pageSize) successor := by
  have hx : (Expression.variable "x").InRange intScope (.zeroed pageSize) := by
    rintro v hv
    obtain rfl := Option.some.inj hv
    decide
  have hone : (Expression.literal (.integer 1)).InRange intScope (.zeroed pageSize) := by
    rintro v hv
    obtain rfl := Option.some.inj hv
    decide
  have hsum : successor.InRange intScope (.zeroed pageSize) := by
    rintro v hv
    obtain rfl := Option.some.inj hv
    decide
  constructor
  · rw [successor, Expression.everywhere_binary, Expression.everywhere_variable,
      Expression.everywhere_literal]
    exact ⟨rfl, ⟨_, rfl, rfl⟩, trivial⟩
  · rw [successor, Expression.everywhere_binary, Expression.everywhere_variable,
      Expression.everywhere_literal]
    exact ⟨trivial, fun _ _ _ => .inl rfl, trivial⟩
  · rw [successor, Expression.everywhere_binary, Expression.everywhere_variable,
      Expression.everywhere_literal]
    exact ⟨hsum, hx, hone⟩
  · rfl

theorem preserved_successor :
    successor.Everywhere (Preserved .debug intScope (.zeroed pageSize)) := by
  apply (preserved_iff successor_admissible rfl).2
  rw [successor, Expression.everywhere_binary, Expression.everywhere_variable,
    Expression.everywhere_literal]
  refine ⟨trivial, ?_, trivial⟩
  intro info hinfo
  obtain rfl := Option.some.inj hinfo
  exact ⟨by decide, fun h => nomatch h⟩

theorem minusOne_admissible :
    Admissible TypeChecker.new (.zeroed pageSize) (.unary .neg (.literal (.integer 1))) := by
  constructor
  · simp [Expression.Basic]
  · simp [Expression.BoolByte]
  · rw [Expression.everywhere_unary, Expression.everywhere_literal]
    constructor
    · rintro v hv
      obtain rfl := Option.some.inj hv
      decide
    · rintro v hv
      obtain rfl := Option.some.inj hv
      decide
  · rfl

/-- The code of `-1` pushes 1. -/
theorem preserved_fails : ¬ ∀ (b : Build) (tc : TypeChecker) (mem : Memory) (e : Expression)
    (t : TypedExpr), Admissible tc mem e → tc.checkExpr b e = .ok t → Preserved b tc mem e := by
  intro h
  have hneg := h .debug _ _ _ _ minusOne_admissible rfl
  have hoperand := h .debug _ _ _ _ (minusOne_admissible.sub operand_mem_subs) rfl
  have hzero := harmless_neg (b := .debug) minusOne_admissible rfl hneg hoperand 1 rfl
  cases hzero

end VirtualPlc.Compiler
