import VirtualPlc.Compiler.Code

/-!
# Lowering emits the structured code

`lowerStatements_emits` says what lowering followed by code generation makes of statements: exactly
the tokens of `stmtsCode`, unless a call does not resolve; the loop depth is restored and one
temporary is added for each CASE. `module_bodies` concludes that the bodies of an emitted module are
the trees of its POUs.
-/

set_option autoImplicit false

namespace VirtualPlc.Compiler

open VirtualPlc.Word VirtualPlc.Wasm VirtualPlc.Control

namespace WasmEmitter

/-- Index of a called function, if it resolves. -/
def link (e : WasmEmitter) (name : String) (isUserDefined : Bool) : Nat :=
  match e.resolve name isUserDefined with
  | .ok i => i
  | .error _ => 0

/-- Resolve calls in order. -/
def resolveAll (e : WasmEmitter) : List (String × Bool) → Except Failure Unit
  | [] => .ok ()
  | (name, isUserDefined) :: rest =>
    match e.resolve name isUserDefined with
    | .ok _ => e.resolveAll rest
    | .error err => .error err

/-- The tokens `toks`, unless one of `calls` does not resolve. -/
def linked (e : WasmEmitter) (calls : List (String × Bool)) (toks : List Instr) :
    Except Failure (List Instr) :=
  match e.resolveAll calls with
  | .ok _ => .ok toks
  | .error err => .error err

variable (e : WasmEmitter)

theorem resolveAll_append (a b : List (String × Bool)) :
    e.resolveAll (a ++ b) = (e.resolveAll a).bind fun _ => e.resolveAll b := by
  induction a with
  | nil => rfl
  | cons c cs ih =>
    obtain ⟨name, isUserDefined⟩ := c
    rw [List.cons_append, resolveAll, resolveAll]
    cases e.resolve name isUserDefined with
    | ok i => exact ih
    | error err => rfl

theorem resolveAll_ok_iff (calls : List (String × Bool)) :
    e.resolveAll calls = .ok () ↔ ∀ c ∈ calls, ∃ i, e.resolve c.1 c.2 = .ok i := by
  induction calls with
  | nil => simp [resolveAll]
  | cons c cs ih =>
    obtain ⟨name, isUserDefined⟩ := c
    rw [resolveAll]
    cases h : e.resolve name isUserDefined with
    | ok i => simp [ih, h]
    | error err => simp [h]

theorem emitInstructions_append (a b : List Instruction) :
    e.emitInstructions (a ++ b) =
      (e.emitInstructions a).bind fun ta => (e.emitInstructions b).map (ta ++ ·) := by
  induction a with
  | nil =>
    rw [List.nil_append, emitInstructions]
    cases e.emitInstructions b <;> rfl
  | cons i is ih =>
    rw [List.cons_append, emitInstructions, emitInstructions, ih]
    cases e.emitInstruction i with
    | error err => rfl
    | ok t =>
      cases e.emitInstructions is with
      | error err => rfl
      | ok ts => cases e.emitInstructions b <;> rfl

theorem linked_append {a b : List Instruction} {ca cb : List (String × Bool)}
    {ta tb : List Instr} (ha : e.emitInstructions a = e.linked ca ta)
    (hb : e.emitInstructions b = e.linked cb tb) :
    e.emitInstructions (a ++ b) = e.linked (ca ++ cb) (ta ++ tb) := by
  rw [emitInstructions_append, ha, hb, linked, linked, linked, resolveAll_append]
  cases e.resolveAll ca with
  | error err => rfl
  | ok u => cases e.resolveAll cb <;> rfl

end WasmEmitter

/-- The state after appending instructions and `n` temporaries. -/
def IrLowerer.extend (s : IrLowerer) (is : List Instruction) (n : Nat) : IrLowerer :=
  { s with
    currentBody := s.currentBody ++ is
    currentLocals := s.currentLocals ++
      (List.range' s.currentLocals.length n).map fun i => ⟨"__temp_" ++ toString i, .i32⟩ }

/-- The lowering step `f` appends instructions for the tokens `toks depth base` with the calls
`calls`, and `n` temporaries; `depth` and `base` are the loops and temporaries before it. -/
def Emits (e : WasmEmitter) (f : Lower) (toks : Nat → Nat → List Instr) (n : Nat)
    (calls : List (String × Bool)) : Prop :=
  ∀ s, ∃ is, f s = s.extend is n ∧
    e.emitInstructions is = e.linked calls (toks s.loopDepth s.currentLocals.length)

section Emits

variable {e : WasmEmitter} {f g : Lower} {tf tg : Nat → Nat → List Instr} {n k : Nat}
  {cf cg : List (String × Bool)}

@[simp] theorem IrLowerer.loopDepth_extend (s : IrLowerer) (is : List Instruction) (n : Nat) :
    (s.extend is n).loopDepth = s.loopDepth := rfl

@[simp] theorem IrLowerer.length_locals_extend (s : IrLowerer) (is : List Instruction) (n : Nat) :
    (s.extend is n).currentLocals.length = s.currentLocals.length + n := by
  simp [IrLowerer.extend]

theorem IrLowerer.extend_extend (s : IrLowerer) (a b : List Instruction) (n k : Nat) :
    (s.extend a n).extend b k = s.extend (a ++ b) (n + k) := by
  have hrange : List.range' s.currentLocals.length (n + k) =
      List.range' s.currentLocals.length n ++ List.range' (s.currentLocals.length + n) k :=
    List.range'_append_1.symm
  simp only [IrLowerer.extend, List.length_append, List.length_map, List.length_range',
    List.append_assoc, hrange, List.map_append]

theorem Emits.id : Emits e id (fun _ _ => []) 0 [] := by
  intro s
  exact ⟨[], by simp [IrLowerer.extend], rfl⟩

theorem Emits.comp (hf : Emits e f tf n cf) (hg : Emits e g tg k cg) :
    Emits e (fun s => g (f s)) (fun d b => tf d b ++ tg d (b + n)) (n + k) (cf ++ cg) := by
  intro s
  obtain ⟨a, hfa, hta⟩ := hf s
  obtain ⟨b, hgb, htb⟩ := hg (s.extend a n)
  refine ⟨a ++ b, ?_, ?_⟩
  · show g (f s) = _
    rw [hfa, hgb, IrLowerer.extend_extend]
  · simp only [IrLowerer.loopDepth_extend, IrLowerer.length_locals_extend] at htb
    exact e.linked_append hta htb

theorem Emits.pushAll (is : List Instruction) {ts : List Instr}
    (h : e.emitInstructions is = .ok ts) : Emits e (pushAll is) (fun _ _ => ts) 0 [] := by
  intro s
  exact ⟨is, by simp [Compiler.pushAll, IrLowerer.extend], h⟩

theorem Emits.push (i : Instruction) {t : Instr} (h : e.emitInstruction i = .ok t) :
    Emits e (push i) (fun _ _ => [t]) 0 [] := by
  intro s
  refine ⟨[i], by simp [Compiler.push, IrLowerer.extend], ?_⟩
  rw [WasmEmitter.emitInstructions, h]
  rfl

theorem Emits.congr {tf' : Nat → Nat → List Instr} {n' : Nat} {cf' : List (String × Bool)}
    (h : Emits e f tf n cf) (ht : ∀ d b, tf d b = tf' d b) (hn : n = n') (hc : cf = cf') :
    Emits e f tf' n' cf' := by
  subst hn hc
  intro s
  obtain ⟨is, hs, hi⟩ := h s
  exact ⟨is, hs, by rw [hi, ht]⟩

/-- A loop body is lowered one loop deeper. -/
theorem Emits.inLoop (h : Emits e f tf n cf) :
    Emits e (fun s => leaveLoop (f (enterLoop s))) (fun d b => tf (d + 1) b) n cf := by
  intro s
  obtain ⟨is, hs, hi⟩ := h (enterLoop s)
  refine ⟨is, ?_, hi⟩
  show leaveLoop (f (enterLoop s)) = _
  rw [hs]
  rfl

end Emits

/-! ## Expressions -/

section Expressions

variable (e : WasmEmitter)

theorem emitLoad_emits (ty : DataType) (offset : Nat) :
    Emits e (emitLoad ty offset) (fun _ _ => [.op (loadOp ty offset)]) 0 [] := by
  cases ty <;> exact .push _ rfl

theorem emitStore_emits (ty : DataType) :
    Emits e (emitStore ty) (fun _ _ => [.op (storeOp ty)]) 0 [] := by
  cases ty <;> exact .push _ rfl

theorem emitBinaryOp_emits (op : BinaryOp) (ty : DataType) :
    Emits e (emitBinaryOp op ty) (fun _ _ => [.op (binaryOp op ty)]) 0 [] := by
  cases op <;> cases ty <;> exact .push _ rfl

theorem emitUnaryOp_emits (op : UnaryOp) (ty : DataType) :
    Emits e (emitUnaryOp op ty) (fun _ _ => flatten (ops (unaryOps op ty))) 0 [] := by
  cases op with
  | neg => cases ty <;> exact .pushAll _ rfl
  | not => exact .pushAll _ rfl

theorem lowerLiteral_emits (lit : TypedLiteral) :
    Emits e (lowerLiteral lit) (fun _ _ => [.op (.const (literalValue lit))]) 0 [] := by
  cases lit with
  | integer v bits =>
    rw [lowerLiteral, literalValue]
    by_cases h : bits ≤ 32
    · rw [if_pos h, if_pos h]
      exact .push _ rfl
    · rw [if_neg h, if_neg h]
      exact .push _ rfl
  | bool v => exact .push _ rfl
  | real32 v => exact .push _ rfl
  | real64 v => exact .push _ rfl
  | time ns => exact .push _ rfl

theorem lowerCall_emits (name : String) (isUserDefined : Bool) :
    Emits e (lowerCall name isUserDefined) (fun _ _ => [.op (.call (e.link name isUserDefined))]) 0
      [(name, isUserDefined)] := by
  intro s
  refine ⟨[if isUserDefined then .callUser name else .callHost name], ?_, ?_⟩
  · cases isUserDefined <;> simp [lowerCall, push, IrLowerer.extend]
  · cases isUserDefined <;>
      simp only [WasmEmitter.emitInstructions, WasmEmitter.emitInstruction, WasmEmitter.linked,
        WasmEmitter.resolveAll, WasmEmitter.link, if_true, Bool.false_eq_true, if_false]
    · cases e.resolve name false <;> rfl
    · cases e.resolve name true <;> rfl

theorem flatten_ops (os : List Op) : flatten (ops os) = os.map Token.op := by
  induction os with
  | nil => rfl
  | cons o os ih => exact congrArg (Token.op o :: ·) ih

theorem flatten_indexProbe (ty : DataType) : flatten (indexProbe ty) = [] := by
  cases ty <;> rfl

mutual
theorem lowerExpr_emits : ∀ x : TypedExpr,
    Emits e (lowerExpr x) (fun _ _ => flatten (exprCode e.link x)) 0 (exprCalls x)
  | .literal lit _ => lowerLiteral_emits e lit
  | .variable _ offset ty => (Emits.push _ rfl).comp (emitLoad_emits e ty (asU32 offset))
  | .arrayAccess array index elementSize ty =>
    (((pushAddress_emits array).comp (lowerExpr_emits index)).comp
      ((Emits.pushAll _ rfl).comp (emitLoad_emits e ty 0))).congr
      (by
        intro d b
        simp [exprCode, flatten_indexProbe, flatten_ops, scaleCode])
      rfl (by simp [exprCalls])
  | .fieldAccess object _ fieldOffset ty =>
    ((pushAddress_emits object).comp (emitLoad_emits e ty (asU32 fieldOffset))).congr
      (by simp [exprCode, flatten_ops]) rfl (by simp [exprCalls])
  | .binary left op right _ =>
    (((lowerExpr_emits left).comp (lowerExpr_emits right)).comp
      (emitBinaryOp_emits e op left.ty)).congr
      (by simp [exprCode, flatten_ops]) rfl (by simp [exprCalls])
  | .unary op operand _ =>
    ((lowerExpr_emits operand).comp (emitUnaryOp_emits e op operand.ty)).congr
      (by simp [exprCode]) rfl (by simp [exprCalls])
  | .call name arguments isUserDefined _ =>
    ((lowerArguments_emits arguments).comp (lowerCall_emits e name isUserDefined)).congr
      (by simp [exprCode, flatten_ops]) rfl rfl
theorem pushAddress_emits : ∀ x : TypedExpr,
    Emits e (pushAddress x) (fun _ _ => flatten (addressCode e.link x)) 0 (addressCalls x)
  | .variable .. => .push _ rfl
  | .arrayAccess array index elementSize _ =>
    (((pushAddress_emits array).comp (lowerExpr_emits index)).comp (Emits.pushAll _ rfl)).congr
      (by
        intro d b
        simp [addressCode, flatten_indexProbe, flatten_ops, scaleCode])
      rfl (by simp [addressCalls])
  | .literal .. | .fieldAccess .. | .binary .. | .unary .. | .call .. => .push _ rfl
theorem lowerArguments_emits : ∀ xs : List TypedExpr,
    Emits e (lowerArguments xs) (fun _ _ => flatten (argumentsCode e.link xs)) 0
      (argumentsCalls xs)
  | [] => .id
  | x :: xs =>
    ((lowerExpr_emits x).comp (lowerArguments_emits xs)).congr
      (by simp [argumentsCode]) rfl rfl
end

end Expressions

/-! ## Statements -/

/-- The tokens from the end of the first arm of a conditional to its end. -/
def closing (els : Option PlcCode) : List Instr :=
  match els with
  | some els => .els :: (flatten els ++ [.fin])
  | none => [.fin]

theorem flatten_condCode (thn : PlcCode) (els : Option PlcCode) :
    (condCode thn els).flatten = .cond :: (flatten thn ++ closing els) := by
  cases els with
  | some els => simp [condCode, closing, Code.flatten]
  | none => simp [condCode, closing, Code.flatten]

/-- The lowering of an optional ELSE produces the code `code depth base`. -/
inductive ElseEmits (e : WasmEmitter) :
    Option Lower → (Nat → Nat → Option PlcCode) → Nat → List (String × Bool) → Prop where
  | none : ElseEmits e none (fun _ _ => none) 0 []
  | some {f : Lower} {code : Nat → Nat → PlcCode} {n : Nat} {calls : List (String × Bool)}
      (h : Emits e f (fun d b => flatten (code d b)) n calls) :
      ElseEmits e (some f) (fun d b => some (code d b)) n calls

/-- Lower an optional second arm and close the conditional. -/
def closeArm (els : Option Lower) : Lower := fun s =>
  push .fin (match els with
    | some stmts => stmts (push .els s)
    | none => s)

section Statements

variable {e : WasmEmitter}

theorem closeArm_emits {els : Option Lower} {code : Nat → Nat → Option PlcCode} {n : Nat}
    {calls : List (String × Bool)} (h : ElseEmits e els code n calls) :
    Emits e (closeArm els) (fun d b => closing (code d b)) n calls := by
  cases h with
  | none => exact .push _ rfl
  | some h =>
    refine (((Emits.push _ rfl).comp h).comp (Emits.push .fin rfl)).congr ?_ (by omega)
      (by simp)
    intro d b
    simp [closing]

@[simp] theorem pushAll_nil (s : IrLowerer) : pushAll [] s = s := by
  simp [pushAll]

theorem pushAll_singleton (i : Instruction) (s : IrLowerer) : pushAll [i] s = push i s := rfl

theorem pushAll_append (a b : List Instruction) (s : IrLowerer) :
    pushAll (a ++ b) s = pushAll b (pushAll a s) := by
  simp [pushAll]

theorem pushAll_fin_succ (n : Nat) (s : IrLowerer) :
    pushAll (List.replicate (n + 1) .fin) s = push .fin (pushAll (List.replicate n .fin) s) := by
  simp [pushAll, push, List.replicate_succ']

theorem pushAll_fin_succ' (n : Nat) (s : IrLowerer) :
    pushAll (List.replicate (n + 1) .fin) s = pushAll (List.replicate n .fin) (push .fin s) := by
  simp [pushAll, push, List.replicate_succ]

theorem caseCondition_emits (sel : Nat) (v : Int) (vs : List Int) :
    Emits e (pushAll (caseCondition sel (v :: vs)))
      (fun _ _ => flatten (ops (caseConditionOps sel (v :: vs)))) 0 [] := by
  have htest : e.emitInstructions (caseTest sel v) =
      e.linked [] (flatten (ops (caseTestOps sel v))) := rfl
  have hrest : ∀ ws : List Int, e.emitInstructions
      (ws.flatMap fun w => caseTest sel w ++ [.i32Or]) =
        e.linked [] (flatten (ops (ws.flatMap fun w => caseTestOps sel w ++ [.i32Bin .or]))) := by
    intro ws
    induction ws with
    | nil => rfl
    | cons w ws ih =>
      have hw : e.emitInstructions (caseTest sel w ++ [.i32Or]) =
          e.linked [] (flatten (ops (caseTestOps sel w ++ [.i32Bin .or]))) := rfl
      simpa [flatten_ops] using e.linked_append hw ih
  have h := e.linked_append htest (hrest vs)
  apply Emits.pushAll
  show e.emitInstructions (caseCondition sel (v :: vs)) = e.linked [] _
  simpa [caseCondition, caseConditionOps, flatten_ops] using h

theorem allocTempLocal_emits : Emits e (allocTempLocal .i32) (fun _ _ => []) 1 [] := by
  intro s
  exact ⟨[], by simp [allocTempLocal, IrLowerer.extend], rfl⟩

/-- A step may name the first temporary that it adds. -/
theorem Emits.withBase {f : Nat → Lower} {toks : Nat → Nat → Nat → List Instr} {n : Nat}
    {calls : List (String × Bool)} (h : ∀ i, Emits e (f i) (toks i) n calls) :
    Emits e (fun s => f s.currentLocals.length s) (fun d b => toks b d b) n calls :=
  fun s => h s.currentLocals.length s

theorem validBranches_cons (v : Int) (vs : List Int) (stmts : List TypedStatement)
    (rest : List (List Int × List TypedStatement)) :
    validBranches ((v :: vs, stmts) :: rest) = validBranches rest + 1 := by
  simp [validBranches]

/-- A condition and a first arm before the rest of a chain of `k + 1` conditionals. -/
theorem condChain_emits {f : Lower} {code : Nat → Nat → Option PlcCode} {n k : Nat}
    {calls : List (String × Bool)} {els : Option Lower}
    (h : Emits e (fun s => pushAll (List.replicate k .fin) (closeArm els (f s)))
      (fun d b => closing (code d b)) n calls)
    {test stmts : Lower} {testToks : List Instr} {testCalls : List (String × Bool)}
    (ht : Emits e test (fun _ _ => testToks) 0 testCalls)
    {thn : Nat → Nat → PlcCode} {m : Nat} {thnCalls : List (String × Bool)}
    (hs : Emits e stmts (fun d b => flatten (thn d b)) m thnCalls) :
    Emits e (fun s => pushAll (List.replicate k .fin)
        (closeArm els (f (stmts (push .cond (test s))))))
      (fun d b => testToks ++ (condCode (thn d b) (code d (b + m))).flatten) (m + n)
      (testCalls ++ (thnCalls ++ calls)) := by
  have hcond : Emits e (push .cond) (fun _ _ => [.cond]) 0 [] := .push _ rfl
  refine ((ht.comp hcond).comp (hs.comp h)).congr ?_ (by omega) (by simp)
  intro d b
  simp [flatten_condCode]

theorem push_els_emits : Emits e (push .els) (fun _ _ => [.els]) 0 [] := .push _ rfl

theorem push_fin_emits : Emits e (push .fin) (fun _ _ => [.fin]) 0 [] := .push _ rfl

theorem lowerIf_eq (condition : TypedExpr) (thn elsifs : Lower) (n : Nat) (els : Option Lower) :
    lowerIf condition thn elsifs n els = fun s =>
      pushAll (List.replicate n .fin)
        (closeArm els (elsifs (thn (push .cond (lowerExpr condition s))))) := by
  funext s
  cases els <;> simp [lowerIf, closeArm, pushAll_fin_succ']

/-- The end of a CASE with `valid` branches. -/
def closeCase (valid : Nat) (els : Option Lower) : Lower := fun s =>
  pushAll (List.replicate valid .fin) (match els with
    | some stmts => stmts (if valid = 0 then s else push .els s)
    | none => s)

theorem closeCase_succ (k : Nat) (els : Option Lower) (s : IrLowerer) :
    closeCase (k + 1) els s = pushAll (List.replicate k .fin) (closeArm els s) := by
  cases els <;> simp [closeCase, closeArm, pushAll_fin_succ']

theorem closeCase_zero_emits {els : Option Lower} {code : Nat → Nat → Option PlcCode} {n : Nat}
    {calls : List (String × Bool)} (h : ElseEmits e els code n calls) :
    Emits e (closeCase 0 els) (fun d b => flatten ((code d b).getD [])) n calls := by
  cases h with
  | none =>
    have hs : closeCase 0 none = id := by
      funext s
      simp [closeCase]
    rw [hs]
    exact .id
  | @some f _ _ _ h =>
    have hs : closeCase 0 (some f) = f := by
      funext s
      simp [closeCase]
    rw [hs]
    exact h

theorem stepCode_emits (step : Option TypedExpr) :
    Emits e (fun s => match step with
        | some x => lowerExpr x s
        | none => push (.i32Const 1) s)
      (fun _ _ => flatten (stepCode e.link step)) 0
      (match step with
        | some x => exprCalls x
        | none => []) := by
  cases step with
  | none => exact .push _ rfl
  | some x => exact lowerExpr_emits e x

theorem lowerFor_emits (varOffset : Nat) (start stop : TypedExpr) (step : Option TypedExpr)
    {body : Lower} {code : Nat → Nat → PlcCode} {n : Nat} {calls : List (String × Bool)}
    (h : Emits e body (fun d b => flatten (code d b)) n calls) :
    Emits e (lowerFor varOffset start stop step body)
      (fun d b => flatten (forCode (asU32 varOffset) (exprCode e.link start)
        (exprCode e.link stop) (stepCode e.link step) (code (d + 1) b))) n
      (exprCalls start ++ (exprCalls stop ++ (calls ++
        (match step with
          | some x => exprCalls x
          | none => [])))) := by
  have hinit := (Emits.push (.i32Const 0) rfl).comp (lowerExpr_emits e start)
  have hopen := Emits.pushAll (e := e) [.i32Store (asU32 varOffset), .block, .loop] rfl
  have htest := ((Emits.pushAll [.i32Const 0, .i32Load (asU32 varOffset)] rfl).comp
    (lowerExpr_emits e stop)).comp (Emits.pushAll [.i32GtS, .brIf 1] rfl)
  have hnext := ((Emits.pushAll [.i32Const 0, .i32Const 0, .i32Load (asU32 varOffset)] rfl).comp
    (stepCode_emits (e := e) step)).comp
    (Emits.pushAll [.i32Add, .i32Store (asU32 varOffset), .br 0] rfl)
  have hloop := ((htest.comp h).comp hnext).inLoop
  refine (((hinit.comp hopen).comp hloop).comp (Emits.pushAll [.fin, .fin] rfl)).congr ?_ (by omega)
    (by simp)
  intro d b
  simp [forCode, Code.flatten, flatten_ops]

theorem lowerWhile_emits (condition : TypedExpr) {body : Lower} {code : Nat → Nat → PlcCode}
    {n : Nat} {calls : List (String × Bool)}
    (h : Emits e body (fun d b => flatten (code d b)) n calls) :
    Emits e (lowerWhile condition body)
      (fun d b => flatten (whileCode (exprCode e.link condition) (code (d + 1) b))) n
      (exprCalls condition ++ calls) := by
  have htest := (lowerExpr_emits e condition).comp (Emits.pushAll [.i32Eqz, .brIf 1] rfl)
  have hloop := ((htest.comp h).comp (Emits.push (.br 0) rfl)).inLoop
  refine (((Emits.pushAll [.block, .loop] rfl).comp hloop).comp
    (Emits.pushAll [.fin, .fin] rfl)).congr ?_ (by omega) (by simp)
  intro d b
  simp [whileCode, Code.flatten, flatten_ops]

theorem lowerRepeat_emits (untilCond : TypedExpr) {body : Lower} {code : Nat → Nat → PlcCode}
    {n : Nat} {calls : List (String × Bool)}
    (h : Emits e body (fun d b => flatten (code d b)) n calls) :
    Emits e (lowerRepeat body untilCond)
      (fun d b => flatten (repeatCode (code (d + 1) b) (exprCode e.link untilCond))) n
      (calls ++ exprCalls untilCond) := by
  have hloop := ((h.comp (lowerExpr_emits e untilCond)).comp
    (Emits.pushAll [.brIf 1, .br 0] rfl)).inLoop
  refine (((Emits.pushAll [.block, .loop] rfl).comp hloop).comp
    (Emits.pushAll [.fin, .fin] rfl)).congr ?_ (by omega) (by simp)
  intro d b
  simp [repeatCode, Code.flatten, flatten_ops]

theorem lowerCase_emits (selector : TypedExpr) {branches : Nat → Lower} {valid : Nat}
    {els : Option Lower} {code : Nat → Nat → Nat → PlcCode} {n : Nat} {calls : List (String × Bool)}
    (h : ∀ i, Emits e (fun s => closeCase valid els (branches i s))
      (fun d b => flatten (code i d b)) n calls) :
    Emits e (lowerCase selector branches valid els)
      (fun d b => flatten (exprCode e.link selector ++ (ops [.localSet b] ++ code b d (b + 1))))
      (1 + n) (exprCalls selector ++ calls) := by
  have hsel := allocTempLocal_emits.comp (lowerExpr_emits e selector)
  refine (Emits.withBase fun i => (hsel.comp (Emits.push (.localSet i) rfl)).comp (h i)).congr
    ?_ (by omega) (by simp)
  intro d b
  simp [flatten_ops]

mutual
theorem lowerStatement_emits : ∀ x : TypedStatement,
    Emits e (lowerStatement x) (fun d b => flatten (stmtCode e.link x d b)) (stmtLocals x)
      (stmtCalls x)
  | .assignment target value =>
    (((pushAddress_emits e target).comp (lowerExpr_emits e value)).comp
      (emitStore_emits e target.ty)).congr
      (by simp [stmtCode, flatten_ops]) rfl (by simp [stmtCalls])
  | .ifStmt condition thenBranch elsifBranches none => by
    have h := condChain_emits (lowerElsifs_emits elsifBranches .none)
      (lowerExpr_emits e condition) (lowerStatements_emits thenBranch)
    rw [lowerStatement, lowerIf_eq]
    refine h.congr ?_ ?_ ?_
    · intro d b
      simp [stmtCode]
    · simp [stmtLocals]
    · simp [stmtCalls]
  | .ifStmt condition thenBranch elsifBranches (some stmts) => by
    have h := condChain_emits
      (lowerElsifs_emits elsifBranches (.some (lowerStatements_emits stmts)))
      (lowerExpr_emits e condition) (lowerStatements_emits thenBranch)
    rw [lowerStatement, lowerIf_eq]
    refine h.congr ?_ ?_ ?_
    · intro d b
      simp [stmtCode]
    · simp [stmtLocals]
    · simp [stmtCalls]
  | .forStmt _ varOffset start stop step body =>
    lowerFor_emits varOffset start stop step (lowerStatements_emits body)
  | .whileStmt condition body => lowerWhile_emits condition (lowerStatements_emits body)
  | .repeatStmt body untilCond => lowerRepeat_emits untilCond (lowerStatements_emits body)
  | .caseStmt selector branches none => by
    have h := lowerCase_emits selector fun i => lowerBranches_first_emits branches i .none
    refine h.congr ?_ ?_ ?_
    · intro d b
      simp [stmtCode]
    · simp [stmtLocals]
    · simp [stmtCalls]
  | .caseStmt selector branches (some stmts) => by
    have h := lowerCase_emits selector fun i =>
      lowerBranches_first_emits branches i (.some (lowerStatements_emits stmts))
    refine h.congr ?_ ?_ ?_
    · intro d b
      simp [stmtCode]
    · simp [stmtLocals]
    · simp [stmtCalls]
  | .exitStmt => fun s => Emits.push (.br s.loopDepth) rfl s
  | .continueStmt => .push _ rfl
  | .returnStmt none => .push _ rfl
  | .returnStmt (some x) =>
    ((lowerExpr_emits e x).comp (Emits.push _ rfl)).congr
      (by simp [stmtCode, returnCode, flatten_ops]) rfl (by simp [stmtCalls])
  | .callStmt name arguments isUserDefined =>
    (((lowerArguments_emits e arguments).comp (lowerCall_emits e name isUserDefined)).comp
      (Emits.push _ rfl)).congr
      (by simp [stmtCode, flatten_ops]) rfl (by simp [stmtCalls])
  | .empty => .id
theorem lowerStatements_emits : ∀ xs : List TypedStatement,
    Emits e (lowerStatements xs) (fun d b => flatten (stmtsCode e.link xs d b)) (stmtsLocals xs)
      (stmtsCalls xs)
  | [] => .id
  | x :: xs =>
    ((lowerStatement_emits x).comp (lowerStatements_emits xs)).congr
      (by simp [stmtsCode]) rfl rfl
theorem lowerElsifs_emits : ∀ (xs : List (TypedExpr × List TypedStatement)) {els : Option Lower}
    {code : Nat → Nat → Option PlcCode} {n : Nat} {calls : List (String × Bool)},
    ElseEmits e els code n calls →
    Emits e (fun s => pushAll (List.replicate xs.length .fin) (closeArm els (lowerElsifs xs s)))
      (fun d b => closing (elsifsCode e.link xs d b (code d (b + elsifsLocals xs))))
      (elsifsLocals xs + n) (elsifsCalls xs ++ calls)
  | [], _, _, _, _, h => by
    have hs := closeArm_emits h
    simpa [lowerElsifs, elsifsCode, elsifsLocals, elsifsCalls] using hs
  | (condition, stmts) :: rest, els, code, n, calls, h => by
    have hc := (push_els_emits (e := e)).comp (lowerExpr_emits e condition)
    have ht := condChain_emits (lowerElsifs_emits rest h) hc (lowerStatements_emits stmts)
    have hf := ht.comp push_fin_emits
    simp only [← pushAll_fin_succ] at hf
    refine hf.congr ?_ (by simp [elsifsLocals, Nat.add_assoc]) (by simp [elsifsCalls])
    intro d b
    simp [elsifsCode, elsifsLocals, closing, Nat.add_assoc]
theorem lowerBranches_emits : ∀ (xs : List (List Int × List TypedStatement)) (sel : Nat)
    {els : Option Lower} {code : Nat → Nat → Option PlcCode} {n : Nat}
    {calls : List (String × Bool)},
    ElseEmits e els code n calls →
    Emits e (fun s => pushAll (List.replicate (validBranches xs) .fin)
        (closeArm els (lowerBranches xs false sel s)))
      (fun d b => closing (branchesCode e.link xs d b sel (code d (b + branchesLocals xs))))
      (branchesLocals xs + n) (branchesCalls xs ++ calls)
  | [], _, _, _, _, _, h => by
    have hs := closeArm_emits h
    simpa [lowerBranches, branchesCode, branchesLocals, branchesCalls, validBranches] using hs
  | ([], _) :: rest, sel, els, code, n, calls, h => lowerBranches_emits rest sel h
  | (v :: vs, stmts) :: rest, sel, els, code, n, calls, h => by
    have hc := (push_els_emits (e := e)).comp (caseCondition_emits sel v vs)
    have ht := condChain_emits (lowerBranches_emits rest sel h) hc (lowerStatements_emits stmts)
    have hf := ht.comp push_fin_emits
    simp only [← pushAll_fin_succ] at hf
    simp only [lowerBranches, validBranches_cons, pushAll_append, pushAll_singleton]
    refine hf.congr ?_ (by simp [branchesLocals, Nat.add_assoc]) (by simp [branchesCalls])
    intro d b
    simp [branchesCode, branchesLocals, closing, Nat.add_assoc]
theorem lowerBranches_first_emits : ∀ (xs : List (List Int × List TypedStatement)) (sel : Nat)
    {els : Option Lower} {code : Nat → Nat → Option PlcCode} {n : Nat}
    {calls : List (String × Bool)},
    ElseEmits e els code n calls →
    Emits e (fun s => closeCase (validBranches xs) els (lowerBranches xs true sel s))
      (fun d b => flatten
        ((branchesCode e.link xs d b sel (code d (b + branchesLocals xs))).getD []))
      (branchesLocals xs + n) (branchesCalls xs ++ calls)
  | [], _, _, _, _, _, h => by
    have hs := closeCase_zero_emits h
    simpa [lowerBranches, branchesCode, branchesLocals, branchesCalls, validBranches] using hs
  | ([], _) :: rest, sel, _, _, _, _, h => lowerBranches_first_emits rest sel h
  | (v :: vs, stmts) :: rest, sel, els, code, n, calls, h => by
    have ht := condChain_emits (lowerBranches_emits rest sel h) (caseCondition_emits sel v vs)
      (lowerStatements_emits stmts)
    simp only [lowerBranches, validBranches_cons, closeCase_succ, pushAll_append,
      pushAll_singleton]
    refine ht.congr ?_ (by simp [branchesLocals, Nat.add_assoc]) (by simp [branchesCalls])
    intro d b
    simp [branchesCode, branchesLocals, Nat.add_assoc]
end

end Statements

/-- The block structure of what a lowering step emits in the state `s`. -/
def WasmEmitter.treeOf (e : WasmEmitter) (f : Lower) (s : IrLowerer) : Option PlcCode :=
  match e.emitInstructions (f { s with currentBody := [] }).currentBody with
  | .ok ts => parseBody (ts ++ [.fin])
  | .error _ => none

theorem Emits.treeOf {e : WasmEmitter} {f : Lower} {code : Nat → Nat → PlcCode} {n : Nat}
    {calls : List (String × Bool)} (h : Emits e f (fun d b => flatten (code d b)) n calls)
    (hcalls : e.resolveAll calls = .ok ()) (s : IrLowerer) :
    e.treeOf f s = some (strip (code s.loopDepth s.currentLocals.length)) := by
  obtain ⟨is, hs, hi⟩ := h { s with currentBody := [] }
  have hbody : e.emitInstructions (IrLowerer.extend { s with currentBody := [] } is n).currentBody =
      .ok (flatten (code s.loopDepth s.currentLocals.length)) := by
    show e.emitInstructions ([] ++ is) = _
    rw [List.nil_append, hi, WasmEmitter.linked, hcalls]
  rw [WasmEmitter.treeOf, hs, hbody]
  exact parseBody_flatten _

/-- What is emitted has a block structure exactly when all calls resolve. -/
theorem Emits.treeOf_iff {e : WasmEmitter} {f : Lower} {code : Nat → Nat → PlcCode} {n : Nat}
    {calls : List (String × Bool)} (h : Emits e f (fun d b => flatten (code d b)) n calls)
    (s : IrLowerer) (tree : PlcCode) :
    e.treeOf f s = some tree ↔
      e.resolveAll calls = .ok () ∧ tree = strip (code s.loopDepth s.currentLocals.length) := by
  cases hcalls : e.resolveAll calls with
  | ok u =>
    rw [h.treeOf hcalls s, Option.some.injEq]
    exact ⟨fun heq => ⟨rfl, heq.symm⟩, fun heq => heq.2.symm⟩
  | error err =>
    obtain ⟨is, hs, hi⟩ := h { s with currentBody := [] }
    have hbody : e.emitInstructions
        (IrLowerer.extend { s with currentBody := [] } is n).currentBody = .error err := by
      show e.emitInstructions ([] ++ is) = _
      rw [List.nil_append, hi, WasmEmitter.linked, hcalls]
    rw [WasmEmitter.treeOf, hs, hbody]
    constructor
    · intro heq
      cases heq
    · rintro ⟨heq, -⟩
      cases heq

@[simp] theorem strip_ops (os : List Op) : strip (ops os) = ops os := by
  induction os with
  | nil => rfl
  | cons o os ih => exact congrArg (_ :: ·) ih

/-! ## Modules -/

/-- Name of the function that a POU becomes. -/
def TypedPou.functionName (pou : TypedPou) : String :=
  match pou with
  | .program _ => "step"
  | .functionBlock fb => fb.name
  | .function f => f.name

/-- A PROGRAM becomes a step function. -/
def TypedPou.isStep (pou : TypedPou) : Bool :=
  match pou with
  | .program _ => true
  | .functionBlock _ | .function _ => false

/-- Function indices in the module of a compilation unit. -/
def TypedUnit.emitter (typed : TypedUnit) : WasmEmitter :=
  ⟨assignIndices (importHostFunctions.map (·.name)) 0,
    assignIndices (typed.units.map TypedPou.functionName) importHostFunctions.length⟩

/-- The code of a POU. -/
def TypedPou.code (link : String → Bool → Nat) (pou : TypedPou) : PlcCode :=
  stmtsCode link pou.body 0 0

/-- The function that a POU becomes. -/
def TypedPou.func (link : String → Bool → Nat) (pou : TypedPou) : Func :=
  ⟨0, List.replicate (stmtsLocals pou.body) .i32, flatten (pou.code link) ++ [.fin]⟩

/-- The calls of a compilation unit. -/
def TypedUnit.calls (typed : TypedUnit) : List (String × Bool) :=
  typed.units.flatMap fun pou => stmtsCalls pou.body

/-- Exports of the step functions of POUs, the first of which has index `i`. -/
def stepExports : List TypedPou → Nat → List Export
  | [], _ => []
  | pou :: rest, i =>
    if pou.isStep then ⟨"step", .func, i⟩ :: stepExports rest (i + 1) else stepExports rest (i + 1)

/-- The module of a compilation unit whose calls all resolve. -/
def TypedUnit.module (typed : TypedUnit) : Wasm.Module where
  types := defineTypes
  imports := importHostFunctions
  funcs := typed.units.map (TypedPou.func typed.emitter.link)
  memory := ⟨1, some 1⟩
  exports := stepExports typed.units importHostFunctions.length ++ [⟨"memory", .memory, 0⟩]
  data := []

/-- The function `f` is the lowered POU. -/
structure Lowers (pou : TypedPou) (f : IrFunction) : Prop where
  name : f.name = pou.functionName
  isStep : f.isStep = pou.isStep
  locals : f.locals.map (·.wasmType.valType) = List.replicate (stmtsLocals pou.body) .i32
  body : ∀ e : WasmEmitter, e.emitInstructions f.body =
    e.linked (stmtsCalls pou.body) (flatten (pou.code e.link))

theorem lowerBody_eq (name : String) (isStep : Bool) (body : List TypedStatement) (s : IrLowerer)
    (hs : s.loopDepth = 0) :
    ∃ f : IrFunction, lowerBody name isStep body s =
        { s with functions := s.functions ++ [f], currentBody := [], currentLocals := [] } ∧
      f.name = name ∧ f.isStep = isStep ∧
      f.locals.map (·.wasmType.valType) = List.replicate (stmtsLocals body) .i32 ∧
      ∀ e : WasmEmitter, e.emitInstructions f.body =
        e.linked (stmtsCalls body) (flatten (stmtsCode e.link body 0 0)) := by
  let s₀ : IrLowerer := { s with currentBody := [], currentLocals := [] }
  have h := fun e : WasmEmitter => lowerStatements_emits (e := e) body s₀
  obtain ⟨is, hi, -⟩ := h ⟨[], []⟩
  refine ⟨⟨name, isStep, (s₀.extend is (stmtsLocals body)).currentLocals, is⟩, ?_, rfl, rfl, ?_, ?_⟩
  · show _ = _
    simp only [lowerBody]
    rw [show lowerStatements body { s with currentBody := [], currentLocals := [] } = _ from hi]
    simp [IrLowerer.extend, s₀]
  · simp [IrLowerer.extend, s₀, WasmType.valType, Function.comp_def, List.map_const']
  · intro e
    obtain ⟨is', hi', he⟩ := h e
    have hbody : is = is' := by
      have hc := congrArg IrLowerer.currentBody (hi.symm.trans hi')
      simpa [IrLowerer.extend, s₀] using hc
    rw [hbody, he]
    simp [s₀, hs]

theorem lowerPou_lowers (pou : TypedPou) (s : IrLowerer) (hs : s.loopDepth = 0) :
    ∃ f, Lowers pou f ∧ lowerPou pou s =
      { s with functions := s.functions ++ [f], currentBody := [], currentLocals := [] } := by
  cases pou with
  | program p =>
    obtain ⟨f, hf, hname, hstep, hlocals, hbody⟩ := lowerBody_eq "step" true p.body s hs
    exact ⟨f, ⟨hname, hstep, hlocals, hbody⟩, hf⟩
  | functionBlock fb =>
    obtain ⟨f, hf, hname, hstep, hlocals, hbody⟩ := lowerBody_eq fb.name false fb.body s hs
    exact ⟨f, ⟨hname, hstep, hlocals, hbody⟩, hf⟩
  | function func =>
    obtain ⟨f, hf, hname, hstep, hlocals, hbody⟩ := lowerBody_eq func.name false func.body s hs
    exact ⟨f, ⟨hname, hstep, hlocals, hbody⟩, hf⟩

theorem foldl_lowerPou (pous : List TypedPou) (s : IrLowerer) (hs : s.loopDepth = 0) :
    ∃ fs, List.Forall₂ Lowers pous fs ∧
      (pous.foldl (fun s pou => lowerPou pou s) s).functions = s.functions ++ fs ∧
      (pous.foldl (fun s pou => lowerPou pou s) s).memorySize = s.memorySize := by
  induction pous generalizing s with
  | nil => exact ⟨[], .nil, by simp, rfl⟩
  | cons pou rest ih =>
    obtain ⟨f, hf, hl⟩ := lowerPou_lowers pou s hs
    obtain ⟨fs, hfs, hfun, hmem⟩ := ih (lowerPou pou s) (by rw [hl]; exact hs)
    refine ⟨f :: fs, .cons hf hfs, ?_, ?_⟩
    · rw [List.foldl_cons, hfun, hl]
      simp
    · rw [List.foldl_cons, hmem, hl]

/-- Lowering a unit yields one function for each POU and the fixed memory size. -/
theorem lower_lowers (typed : TypedUnit) :
    List.Forall₂ Lowers typed.units (lower typed).functions ∧
      (lower typed).memorySize = 0x1000 := by
  obtain ⟨fs, hfs, hfun, hmem⟩ := foldl_lowerPou typed.units .new rfl
  refine ⟨?_, hmem⟩
  show List.Forall₂ Lowers typed.units (typed.units.foldl _ IrLowerer.new).functions
  rw [hfun]
  exact hfs

theorem lowers_names {pous : List TypedPou} {fs : List IrFunction}
    (h : List.Forall₂ Lowers pous fs) :
    fs.map (·.name) = pous.map TypedPou.functionName := by
  induction h with
  | nil => rfl
  | cons hf _ ih => simp [hf.name, ih]

theorem emitter_new_lower (typed : TypedUnit) : WasmEmitter.new (lower typed) = typed.emitter := by
  rw [WasmEmitter.new, TypedUnit.emitter, lowers_names (lower_lowers typed).1]

theorem exportSteps_eq {pous : List TypedPou} {fs : List IrFunction}
    (h : List.Forall₂ Lowers pous fs) (i : Nat) : exportSteps fs i = stepExports pous i := by
  induction h generalizing i with
  | nil => rfl
  | cons hf _ ih => rw [exportSteps, stepExports, hf.isStep, ih]

theorem emitFunctions_eq (e : WasmEmitter) {pous : List TypedPou} {fs : List IrFunction}
    (h : List.Forall₂ Lowers pous fs) :
    e.emitFunctions fs =
      (e.resolveAll (pous.flatMap fun pou => stmtsCalls pou.body)).map fun _ =>
        pous.map (TypedPou.func e.link) := by
  induction h with
  | nil => rfl
  | @cons pou f pous fs hf _ ih =>
    rw [WasmEmitter.emitFunctions, WasmEmitter.emitFunction, hf.body e, ih, List.flatMap_cons,
      WasmEmitter.resolveAll_append, WasmEmitter.linked, hf.locals]
    cases e.resolveAll (stmtsCalls pou.body) with
    | error err => rfl
    | ok u => cases e.resolveAll (pous.flatMap fun pou => stmtsCalls pou.body) <;> rfl

/-- Emitting a lowered unit yields its module, unless a call does not resolve. -/
theorem emit_lower (typed : TypedUnit) :
    emit (lower typed) = (typed.emitter.resolveAll typed.calls).map fun _ => typed.module := by
  obtain ⟨hfs, hmem⟩ := lower_lowers typed
  have hexp := exportSteps_eq hfs importHostFunctions.length
  rw [emit, emitter_new_lower, emitFunctions_eq typed.emitter hfs, hexp, hmem]
  show _ = (typed.emitter.resolveAll
    (typed.units.flatMap fun pou => stmtsCalls pou.body)).map fun _ => typed.module
  cases typed.emitter.resolveAll (typed.units.flatMap fun pou => stmtsCalls pou.body) <;> rfl

theorem emit_lower_ok {typed : TypedUnit} {m : Wasm.Module} (h : emit (lower typed) = .ok m) :
    m = typed.module := by
  rw [emit_lower] at h
  cases hr : typed.emitter.resolveAll typed.calls with
  | error err =>
    rw [hr] at h
    cases h
  | ok u =>
    rw [hr] at h
    cases h
    rfl

/-- The bodies of an emitted module are the trees of its POUs without their observations. -/
theorem module_bodies (typed : TypedUnit) :
    (typed.module.bodies : Option (List (Body Bounds))) = some (typed.units.map fun pou =>
      ⟨List.replicate (stmtsLocals pou.body) .i32, strip (pou.code typed.emitter.link)⟩) := by
  have hmap : ∀ pous : List TypedPou,
      ((pous.map (TypedPou.func typed.emitter.link)).mapM
        (fun f => (parseBody f.body).map (Body.mk f.locals)) : Option (List (Body Bounds))) =
      some (pous.map fun pou =>
        ⟨List.replicate (stmtsLocals pou.body) .i32, strip (pou.code typed.emitter.link)⟩) := by
    intro pous
    induction pous with
    | nil => rfl
    | cons pou rest ih => simp [List.mapM_cons, TypedPou.func, parseBody_flatten, ih]
  exact hmap typed.units

end VirtualPlc.Compiler
