import VirtualPlc.Compiler.MemoryMap
import VirtualPlc.Control.Binding

/-!
# Resolution of calls

The checker finds a callee among the signatures, where the last FUNCTION or FUNCTION_BLOCK of a name
counts; code generation finds it among the functions of the module, where a PROGRAM is one more
function named `step`. The two agree, call by call, unless a PROGRAM hides a callable of that name
(`callsResolved_iff`).
-/

set_option autoImplicit false

namespace VirtualPlc.Compiler

open VirtualPlc.Word VirtualPlc.Wasm VirtualPlc.Control

/-! ## Call instructions -/

/-- The function that an operation calls. -/
def opTarget : Op → Option Nat
  | .call i => some i
  | _ => none

/-- The functions that are called, in the order of the call instructions. -/
def callTargets (toks : List Instr) : List Nat :=
  toks.filterMap fun tok =>
    match tok with
    | .op o => opTarget o
    | _ => none

/-- The functions that calls link to. -/
def linkAll (link : String → Bool → Nat) (calls : List (String × Bool)) : List Nat :=
  calls.map fun c => link c.1 c.2

@[simp] theorem linkAll_nil (link : String → Bool → Nat) : linkAll link [] = [] := rfl

@[simp] theorem linkAll_append (link : String → Bool → Nat) (a b : List (String × Bool)) :
    linkAll link (a ++ b) = linkAll link a ++ linkAll link b := List.map_append

/-- The functions that structured code calls. -/
def codeTargets (code : PlcCode) : List Nat := callTargets (flatten code)

@[simp] theorem codeTargets_nil : codeTargets [] = [] := rfl

@[simp] theorem codeTargets_append (a b : PlcCode) :
    codeTargets (a ++ b) = codeTargets a ++ codeTargets b := by
  rw [codeTargets, flatten_append]
  exact List.filterMap_append

@[simp] theorem codeTargets_ops (os : List Op) : codeTargets (ops os) = os.filterMap opTarget := by
  rw [codeTargets, flatten_ops, callTargets, List.filterMap_map]
  rfl

@[simp] theorem codeTargets_block (body : PlcCode) :
    codeTargets [.block body] = codeTargets body := by
  show callTargets (flatten body ++ [.fin] ++ []) = _
  rw [List.append_nil, callTargets, List.filterMap_append]
  exact List.append_nil _

@[simp] theorem codeTargets_loop (body : PlcCode) : codeTargets [.loop body] = codeTargets body :=
  codeTargets_block body

theorem codeTargets_ifElse (thn els : PlcCode) :
    codeTargets [.ifElse thn els] = codeTargets thn ++ codeTargets els := by
  show callTargets ((flatten thn ++ .els :: (flatten els ++ [.fin])) ++ []) = _
  rw [List.append_nil, callTargets, List.filterMap_append]
  apply congrArg (codeTargets thn ++ ·)
  show callTargets (flatten els ++ [.fin]) = _
  rw [callTargets, List.filterMap_append]
  exact List.append_nil _

@[simp] theorem codeTargets_condCode (thn : PlcCode) (els : Option PlcCode) :
    codeTargets [condCode thn els] = codeTargets thn ++ codeTargets (els.getD []) := by
  cases els with
  | none =>
    rw [Option.getD_none, codeTargets_nil, List.append_nil]
    exact codeTargets_block thn
  | some els => exact codeTargets_ifElse thn els

@[simp] theorem opTargets_cons (o : Op) (os : List Op) :
    (o :: os).filterMap opTarget = (opTarget o).toList ++ os.filterMap opTarget := by
  rw [List.filterMap_cons]
  cases opTarget o <;> rfl

theorem opTarget_loadOp (ty : DataType) (offset : Nat) : opTarget (loadOp ty offset) = none := by
  cases ty <;> rfl

theorem opTarget_storeOp (ty : DataType) : opTarget (storeOp ty) = none := by
  cases ty <;> rfl

theorem opTarget_binaryOp (op : BinaryOp) (ty : DataType) : opTarget (binaryOp op ty) = none := by
  have hselect : ∀ {i32 i64 f32 f64 : Op}, opTarget i32 = none → opTarget i64 = none →
      opTarget f32 = none → opTarget f64 = none →
      opTarget (selectOp ty i32 i64 f32 f64) = none := by
    intro i32 i64 f32 f64 h32 h64 hf32 hf64
    rw [selectOp]
    split
    · exact hf32
    · split
      · exact hf64
      · split
        · exact h64
        · exact h32
  cases op with
  | add | sub | mul | div | eq | lt | gt => exact hselect rfl rfl rfl rfl
  | mod | ne | le | ge | and | or | xor | bitAnd | bitOr | bitXor | shl | shr | pow => rfl

theorem opTargets_unaryOps (op : UnaryOp) (ty : DataType) :
    (unaryOps op ty).filterMap opTarget = [] := by
  cases op with
  | neg => cases ty <;> rfl
  | not => rfl

@[simp] theorem codeTargets_indexProbe (ty : DataType) : codeTargets (indexProbe ty) = [] := by
  cases ty <;> rfl

theorem opTargets_caseConditionOps (sel : Nat) (labels : List Int) :
    (caseConditionOps sel labels).filterMap opTarget = [] := by
  cases labels with
  | nil => rfl
  | cons v vs =>
    rw [caseConditionOps, List.filterMap_append, List.append_eq_nil_iff]
    refine ⟨rfl, ?_⟩
    induction vs with
    | nil => rfl
    | cons w ws ih =>
      rw [List.flatMap_cons, List.filterMap_append, ih]
      rfl

section Linked

variable (link : String → Bool → Nat)

mutual
/-- The calls in the code of an expression are its calls, linked. -/
theorem codeTargets_exprCode : ∀ e : TypedExpr,
    codeTargets (exprCode link e) = linkAll link (exprCalls e)
  | .literal .. => rfl
  | .variable _ offset ty => by
    rw [exprCode, codeTargets_ops, List.filterMap_cons_none rfl,
      List.filterMap_cons_none (opTarget_loadOp ty _)]
    rfl
  | .arrayAccess array index elementSize ty => by
    have hload : [loadOp ty 0].filterMap opTarget = [] :=
      List.filterMap_cons_none (opTarget_loadOp ty 0)
    simp only [exprCode, scaleCode, codeTargets_append, codeTargets_ops, codeTargets_indexProbe,
      codeTargets_addressCode array, codeTargets_exprCode index, exprCalls, linkAll_append, hload]
    exact congrArg _ (List.append_nil _)
  | .fieldAccess object _ fieldOffset ty => by
    rw [exprCode, codeTargets_append, codeTargets_addressCode object, codeTargets_ops,
      List.filterMap_cons_none (opTarget_loadOp ty _), List.filterMap_nil, List.append_nil,
      exprCalls]
  | .binary left op right _ => by
    rw [exprCode, codeTargets_append, codeTargets_append, codeTargets_exprCode left,
      codeTargets_exprCode right, codeTargets_ops,
      List.filterMap_cons_none (opTarget_binaryOp op left.ty), List.filterMap_nil, List.append_nil,
      exprCalls, linkAll_append]
  | .unary op operand _ => by
    rw [exprCode, codeTargets_append, codeTargets_exprCode operand, codeTargets_ops,
      opTargets_unaryOps, List.append_nil, exprCalls]
  | .call name arguments isUserDefined _ => by
    rw [exprCode, codeTargets_append, codeTargets_argumentsCode arguments, codeTargets_ops,
      exprCalls, linkAll_append]
    rfl
theorem codeTargets_addressCode : ∀ e : TypedExpr,
    codeTargets (addressCode link e) = linkAll link (addressCalls e)
  | .variable .. => rfl
  | .arrayAccess array index elementSize ty => by
    simp only [addressCode, scaleCode, codeTargets_append, codeTargets_ops, codeTargets_indexProbe,
      codeTargets_addressCode array, codeTargets_exprCode index, addressCalls, linkAll_append]
    exact congrArg _ (List.append_nil _)
  | .literal .. => rfl
  | .fieldAccess .. => rfl
  | .binary .. => rfl
  | .unary .. => rfl
  | .call .. => rfl
theorem codeTargets_argumentsCode : ∀ es : List TypedExpr,
    codeTargets (argumentsCode link es) = linkAll link (argumentsCalls es)
  | [] => rfl
  | e :: es => by
    rw [argumentsCode, codeTargets_append, codeTargets_exprCode e, codeTargets_argumentsCode es,
      argumentsCalls, linkAll_append]
end

theorem codeTargets_stepCode (step : Option TypedExpr) :
    codeTargets (stepCode link step) = linkAll link (step.elim [] exprCalls) := by
  cases step with
  | none => rfl
  | some e => exact codeTargets_exprCode link e

mutual
/-- The calls in the code of a statement are its calls, linked. -/
theorem codeTargets_stmtCode : ∀ (stmt : TypedStatement) (depth base : Nat),
    codeTargets (stmtCode link stmt depth base) = linkAll link (stmtCalls stmt)
  | .assignment target value, depth, base => by
    rw [stmtCode, codeTargets_append, codeTargets_append, codeTargets_addressCode,
      codeTargets_exprCode, codeTargets_ops, List.filterMap_cons_none (opTarget_storeOp target.ty),
      List.filterMap_nil, List.append_nil, stmtCalls, linkAll_append]
  | .ifStmt condition thenBranch elsifBranches none, depth, base => by
    simp [stmtCode, stmtCalls, codeTargets_exprCode, codeTargets_stmtsCode thenBranch,
      codeTargets_elsifsCode elsifBranches]
  | .ifStmt condition thenBranch elsifBranches (some stmts), depth, base => by
    simp [stmtCode, stmtCalls, codeTargets_exprCode, codeTargets_stmtsCode thenBranch,
      codeTargets_elsifsCode elsifBranches, codeTargets_stmtsCode stmts]
  | .forStmt _ varOffset start stop step body, depth, base => by
    cases step <;> simp [stmtCode, forCode, stmtCalls, codeTargets_exprCode, codeTargets_stepCode,
      codeTargets_stmtsCode body, opTarget]
  | .whileStmt condition body, depth, base => by
    simp [stmtCode, whileCode, stmtCalls, codeTargets_exprCode, codeTargets_stmtsCode body,
      opTarget]
  | .repeatStmt body untilCond, depth, base => by
    simp [stmtCode, repeatCode, stmtCalls, codeTargets_exprCode, codeTargets_stmtsCode body,
      opTarget]
  | .caseStmt selector branches none, depth, base => by
    simp [stmtCode, stmtCalls, codeTargets_exprCode, codeTargets_branchesCode branches, opTarget]
  | .caseStmt selector branches (some stmts), depth, base => by
    simp [stmtCode, stmtCalls, codeTargets_exprCode, codeTargets_branchesCode branches,
      codeTargets_stmtsCode stmts, opTarget]
  | .exitStmt, _, _ => rfl
  | .continueStmt, _, _ => rfl
  | .returnStmt none, _, _ => rfl
  | .returnStmt (some e), depth, base => by
    simp [stmtCode, returnCode, stmtCalls, codeTargets_exprCode, opTarget]
  | .callStmt name arguments isUserDefined, depth, base => by
    rw [stmtCode, codeTargets_append, codeTargets_argumentsCode, stmtCalls, linkAll_append]
    rfl
  | .empty, _, _ => rfl
theorem codeTargets_stmtsCode : ∀ (stmts : List TypedStatement) (depth base : Nat),
    codeTargets (stmtsCode link stmts depth base) = linkAll link (stmtsCalls stmts)
  | [], _, _ => rfl
  | stmt :: rest, depth, base => by
    rw [stmtsCode, codeTargets_append, codeTargets_stmtCode stmt, codeTargets_stmtsCode rest,
      stmtsCalls, linkAll_append]
theorem codeTargets_elsifsCode : ∀ (branches : List (TypedExpr × List TypedStatement))
    (depth base : Nat) (els : Option PlcCode),
    codeTargets ((elsifsCode link branches depth base els).getD []) =
      linkAll link (elsifsCalls branches) ++ codeTargets (els.getD [])
  | [], _, _, _ => rfl
  | (condition, stmts) :: rest, depth, base, els => by
    rw [elsifsCode, Option.getD_some, codeTargets_append, codeTargets_condCode,
      codeTargets_exprCode,
      codeTargets_stmtsCode stmts, codeTargets_elsifsCode rest, elsifsCalls, linkAll_append,
      linkAll_append, List.append_assoc, List.append_assoc]
theorem codeTargets_branchesCode : ∀ (branches : List (List Int × List TypedStatement))
    (depth base sel : Nat) (els : Option PlcCode),
    codeTargets ((branchesCode link branches depth base sel els).getD []) =
      linkAll link (branchesCalls branches) ++ codeTargets (els.getD [])
  | [], _, _, _, _ => rfl
  | ([], _) :: rest, depth, base, sel, els => codeTargets_branchesCode rest depth base sel els
  | (v :: vs, stmts) :: rest, depth, base, sel, els => by
    rw [branchesCode, Option.getD_some, codeTargets_append, codeTargets_condCode, codeTargets_ops,
      opTargets_caseConditionOps, List.nil_append, codeTargets_stmtsCode stmts,
      codeTargets_branchesCode rest, branchesCalls, linkAll_append, List.append_assoc]
end

/-- The call instructions of a POU's function are its calls, linked. -/
theorem callTargets_func (pou : TypedPou) :
    callTargets (pou.func link).body = linkAll link (stmtsCalls pou.body) := by
  show callTargets (flatten (pou.code link) ++ [.fin]) = _
  rw [callTargets, List.filterMap_append]
  exact (List.append_nil _).trans (codeTargets_stmtsCode link pou.body 0 0)

end Linked

/-! ## What the checker resolves -/

/-- Every call goes to the signature that is found under its name. -/
def Known (functions : List (String × FunctionSignature)) (calls : List (String × Bool)) : Prop :=
  ∀ c ∈ calls, ∃ sig, functions.lookup c.1 = some sig ∧ c.2 = sig.isUserDefined

section Known

variable {functions : List (String × FunctionSignature)}

theorem known_nil : Known functions [] := nofun

theorem known_append {a b : List (String × Bool)} :
    Known functions (a ++ b) ↔ Known functions a ∧ Known functions b := List.forall_mem_append

/-- Code of an address makes no other calls than code of the value. -/
theorem Known.address {t : TypedExpr} (h : Known functions (exprCalls t)) :
    Known functions (addressCalls t) := by
  cases t with
  | arrayAccess array index elementSize ty => exact h
  | _ => exact known_nil

end Known

section Check

variable {b : Build} {tc : TypeChecker}

theorem checkCallee_ok {name : String} {sig : FunctionSignature}
    (h : tc.checkCallee name = .ok sig) : tc.functions.lookup name = some sig := by
  rw [TypeChecker.checkCallee] at h
  cases hl : tc.functions.lookup name with
  | none =>
    rw [hl] at h
    cases h
  | some s =>
    rw [hl] at h
    cases h
    rfl

/-- A call that has been checked is known with its signature. -/
theorem known_call {calls : List (String × Bool)} {name : String} {sig : FunctionSignature}
    (h : Known tc.functions calls) (hsig : tc.checkCallee name = .ok sig) :
    Known tc.functions (calls ++ [(name, sig.isUserDefined)]) := by
  refine known_append.mpr ⟨h, ?_⟩
  intro c hc
  rw [List.mem_singleton.mp hc]
  exact ⟨sig, checkCallee_ok hsig, rfl⟩

theorem hold_ok {α : Type} {x : Except Failure α} {a : α} {r : Except Failure α}
    (h : hold x = .ok r) (hr : r = .ok a) : x = .ok a := by
  subst hr
  cases x with
  | ok v =>
    cases h
    rfl
  | error err =>
    cases err with
    | err message => cases h
    | panic message => cases h

mutual
/-- The calls of an accepted expression are known. -/
theorem checkExpr_known : ∀ (e : Expression) {t : TypedExpr}, tc.checkExpr b e = .ok t →
    Known tc.functions (exprCalls t)
  | .literal lit, t, h => by
    cases lit <;> cases h <;> exact known_nil
  | .variable name, t, h => by
    rw [TypeChecker.checkExpr, TypeChecker.checkVariable] at h
    cases hl : tc.symbols.vars.lookup name with
    | none =>
      rw [hl] at h
      cases h
    | some info =>
      rw [hl] at h
      cases h
      exact known_nil
  | .arrayAccess array index, t, h => by
    obtain ⟨arr, harr, h⟩ := bind_eq_ok.1 h
    obtain ⟨idx, hidx, h⟩ := bind_eq_ok.1 h
    obtain ⟨⟨ty, size⟩, -, h⟩ := bind_eq_ok.1 h
    cases h
    exact known_append.mpr ⟨(checkExpr_known array harr).address, checkExpr_known index hidx⟩
  | .fieldAccess object field, t, h => by
    obtain ⟨obj, hobj, h⟩ := bind_eq_ok.1 h
    cases h
    exact (checkExpr_known object hobj).address
  | .binary left op right, t, h => by
    obtain ⟨l, hl, h⟩ := bind_eq_ok.1 h
    obtain ⟨r, hr, h⟩ := bind_eq_ok.1 h
    obtain ⟨ty, -, h⟩ := bind_eq_ok.1 h
    cases h
    exact known_append.mpr ⟨checkExpr_known left hl, checkExpr_known right hr⟩
  | .unary op operand, t, h => by
    obtain ⟨o, ho, h⟩ := bind_eq_ok.1 h
    obtain ⟨ty, -, h⟩ := bind_eq_ok.1 h
    cases h
    have hknown := checkExpr_known operand ho
    exact hknown
  | .call name arguments, t, h => by
    obtain ⟨held, hheld, h⟩ := bind_eq_ok.1 h
    obtain ⟨sig, hsig, h⟩ := bind_eq_ok.1 h
    obtain ⟨args, hargs, h⟩ := bind_eq_ok.1 h
    cases h
    exact known_call (checkArguments_known arguments (hold_ok hheld hargs)) hsig
  | .paren inner, t, h => checkExpr_known inner h
theorem checkArguments_known : ∀ (args : List (Option String × Expression)) {ts : List TypedExpr},
    tc.checkArguments b args = .ok ts → Known tc.functions (argumentsCalls ts)
  | [], ts, h => by
    cases h
    exact known_nil
  | (_, value) :: rest, ts, h => by
    obtain ⟨e, he, h⟩ := bind_eq_ok.1 h
    obtain ⟨es, hes, h⟩ := bind_eq_ok.1 h
    cases h
    exact known_append.mpr ⟨checkExpr_known value he, checkArguments_known rest hes⟩
end

theorem checkOptional_known {e : Option Expression} {t : Option TypedExpr}
    (h : tc.checkOptional b e = .ok t) : Known tc.functions (t.elim [] exprCalls) := by
  cases e with
  | none =>
    cases h
    exact known_nil
  | some e =>
    obtain ⟨v, hv, h⟩ := bind_eq_ok.1 h
    cases h
    exact checkExpr_known e hv

mutual
/-- The calls of an accepted statement are known. -/
theorem checkStatement_known : ∀ (stmt : Statement) {t : TypedStatement},
    tc.checkStatement b stmt = .ok t → Known tc.functions (stmtCalls t)
  | .assignment target value, t, h => by
    obtain ⟨tgt, htgt, h⟩ := bind_eq_ok.1 h
    obtain ⟨v, hv, h⟩ := bind_eq_ok.1 h
    obtain ⟨-, -, h⟩ := bind_eq_ok.1 h
    cases h
    exact known_append.mpr ⟨(checkExpr_known target htgt).address, checkExpr_known value hv⟩
  | .ifStmt condition thenBranch elsifBranches none, t, h => by
    obtain ⟨c, hc, h⟩ := bind_eq_ok.1 h
    obtain ⟨-, -, h⟩ := bind_eq_ok.1 h
    obtain ⟨thn, hthn, h⟩ := bind_eq_ok.1 h
    obtain ⟨held, hheld, h⟩ := bind_eq_ok.1 h
    obtain ⟨els, hels, h⟩ := bind_eq_ok.1 h
    obtain ⟨elsifs, helsifs, h⟩ := bind_eq_ok.1 h
    cases hels
    cases h
    exact known_append.mpr ⟨checkExpr_known condition hc, known_append.mpr
      ⟨checkStatements_known thenBranch hthn, known_append.mpr
        ⟨checkElsifs_known elsifBranches (hold_ok hheld helsifs), known_nil⟩⟩⟩
  | .ifStmt condition thenBranch elsifBranches (some stmts), t, h => by
    obtain ⟨c, hc, h⟩ := bind_eq_ok.1 h
    obtain ⟨-, -, h⟩ := bind_eq_ok.1 h
    obtain ⟨thn, hthn, h⟩ := bind_eq_ok.1 h
    obtain ⟨held, hheld, h⟩ := bind_eq_ok.1 h
    obtain ⟨els, hels, h⟩ := bind_eq_ok.1 h
    obtain ⟨elsifs, helsifs, h⟩ := bind_eq_ok.1 h
    obtain ⟨ts, hts, hels⟩ := bind_eq_ok.1 hels
    cases hels
    cases h
    exact known_append.mpr ⟨checkExpr_known condition hc, known_append.mpr
      ⟨checkStatements_known thenBranch hthn, known_append.mpr
        ⟨checkElsifs_known elsifBranches (hold_ok hheld helsifs), checkStatements_known stmts hts⟩⟩⟩
  | .forStmt varName start stop step body, t, h => by
    obtain ⟨info, -, h⟩ := bind_eq_ok.1 h
    obtain ⟨s, hs, h⟩ := bind_eq_ok.1 h
    obtain ⟨e, he, h⟩ := bind_eq_ok.1 h
    obtain ⟨d, hd, h⟩ := bind_eq_ok.1 h
    obtain ⟨bd, hbd, h⟩ := bind_eq_ok.1 h
    cases h
    -- the code of the step stands behind the body, so its calls come last
    have hrest : Known tc.functions (exprCalls s ++ (exprCalls e ++ (stmtsCalls bd ++
        d.elim [] exprCalls))) :=
      known_append.mpr ⟨checkExpr_known start hs, known_append.mpr ⟨checkExpr_known stop he,
        known_append.mpr ⟨checkStatements_known body hbd, checkOptional_known hd⟩⟩⟩
    cases d <;> exact hrest
  | .whileStmt condition body, t, h => by
    obtain ⟨c, hc, h⟩ := bind_eq_ok.1 h
    obtain ⟨-, -, h⟩ := bind_eq_ok.1 h
    obtain ⟨bd, hbd, h⟩ := bind_eq_ok.1 h
    cases h
    exact known_append.mpr ⟨checkExpr_known condition hc, checkStatements_known body hbd⟩
  | .repeatStmt body untilCond, t, h => by
    obtain ⟨bd, hbd, h⟩ := bind_eq_ok.1 h
    obtain ⟨c, hc, h⟩ := bind_eq_ok.1 h
    obtain ⟨-, -, h⟩ := bind_eq_ok.1 h
    cases h
    exact known_append.mpr ⟨checkStatements_known body hbd, checkExpr_known untilCond hc⟩
  | .caseStmt selector branches none, t, h => by
    obtain ⟨sel, hsel, h⟩ := bind_eq_ok.1 h
    obtain ⟨held, hheld, h⟩ := bind_eq_ok.1 h
    obtain ⟨els, hels, h⟩ := bind_eq_ok.1 h
    obtain ⟨brs, hbrs, h⟩ := bind_eq_ok.1 h
    cases hels
    cases h
    exact known_append.mpr ⟨checkExpr_known selector hsel, known_append.mpr
      ⟨checkBranches_known branches (hold_ok hheld hbrs), known_nil⟩⟩
  | .caseStmt selector branches (some stmts), t, h => by
    obtain ⟨sel, hsel, h⟩ := bind_eq_ok.1 h
    obtain ⟨held, hheld, h⟩ := bind_eq_ok.1 h
    obtain ⟨els, hels, h⟩ := bind_eq_ok.1 h
    obtain ⟨brs, hbrs, h⟩ := bind_eq_ok.1 h
    obtain ⟨ts, hts, hels⟩ := bind_eq_ok.1 hels
    cases hels
    cases h
    exact known_append.mpr ⟨checkExpr_known selector hsel, known_append.mpr
      ⟨checkBranches_known branches (hold_ok hheld hbrs), checkStatements_known stmts hts⟩⟩
  | .exitStmt, t, h => by
    cases h
    exact known_nil
  | .continueStmt, t, h => by
    cases h
    exact known_nil
  | .returnStmt value, t, h => by
    obtain ⟨v, hv, h⟩ := bind_eq_ok.1 h
    cases h
    have hvalue := checkOptional_known hv
    cases v <;> exact hvalue
  | .callStmt name arguments, t, h => by
    obtain ⟨held, hheld, h⟩ := bind_eq_ok.1 h
    obtain ⟨sig, hsig, h⟩ := bind_eq_ok.1 h
    obtain ⟨args, hargs, h⟩ := bind_eq_ok.1 h
    cases h
    exact known_call (checkArguments_known arguments (hold_ok hheld hargs)) hsig
  | .empty, t, h => by
    cases h
    exact known_nil
theorem checkStatements_known : ∀ (stmts : List Statement) {ts : List TypedStatement},
    tc.checkStatements b stmts = .ok ts → Known tc.functions (stmtsCalls ts)
  | [], ts, h => by
    cases h
    exact known_nil
  | stmt :: rest, ts, h => by
    obtain ⟨s, hs, h⟩ := bind_eq_ok.1 h
    obtain ⟨ss, hss, h⟩ := bind_eq_ok.1 h
    cases h
    exact known_append.mpr ⟨checkStatement_known stmt hs, checkStatements_known rest hss⟩
theorem checkElsifs_known : ∀ (branches : List (Expression × List Statement))
    {ts : List (TypedExpr × List TypedStatement)},
    tc.checkElsifs b branches = .ok ts → Known tc.functions (elsifsCalls ts)
  | [], ts, h => by
    cases h
    exact known_nil
  | (condition, statements) :: rest, ts, h => by
    obtain ⟨c, hc, h⟩ := bind_eq_ok.1 h
    obtain ⟨-, -, h⟩ := bind_eq_ok.1 h
    obtain ⟨ss, hss, h⟩ := bind_eq_ok.1 h
    obtain ⟨brs, hbrs, h⟩ := bind_eq_ok.1 h
    cases h
    exact known_append.mpr ⟨checkExpr_known condition hc, known_append.mpr
      ⟨checkStatements_known statements hss, checkElsifs_known rest hbrs⟩⟩
theorem checkBranches_known : ∀ (branches : List (List CaseValue × List Statement))
    {ts : List (List Int × List TypedStatement)},
    tc.checkBranches b branches = .ok ts → Known tc.functions (branchesCalls ts)
  | [], ts, h => by
    cases h
    exact known_nil
  | (values, statements) :: rest, ts, h => by
    obtain ⟨vals, -, h⟩ := bind_eq_ok.1 h
    obtain ⟨ss, hss, h⟩ := bind_eq_ok.1 h
    obtain ⟨brs, hbrs, h⟩ := bind_eq_ok.1 h
    cases h
    -- the code of a branch without labels is not emitted
    have hrest := checkBranches_known rest hbrs
    cases vals with
    | nil => exact hrest
    | cons v vs => exact known_append.mpr ⟨checkStatements_known statements hss, hrest⟩
end

end Check

/-! ## Names -/

/-- The name under which a POU can be called. -/
def ProgramUnit.callableName : ProgramUnit → Option String
  | .program _ => none
  | .functionBlock fb => some fb.name
  | .function f => some f.name

/-- The signature that the checker collects of a POU. -/
def ProgramUnit.signature : ProgramUnit → Option FunctionSignature
  | .program _ => none
  | .functionBlock fb => some ⟨fb.name, .bool, [], true⟩
  | .function f => some ⟨f.name, f.returnType, f.params, true⟩

/-- The names under which the POUs of a unit can be called. -/
def CompilationUnit.callableNames (ast : CompilationUnit) : List (Option String) :=
  ast.units.map ProgramUnit.callableName

/-- A POU that can be called puts its signature in front of those collected before. -/
theorem collectSignature_cases (unit : ProgramUnit) :
    (unit.callableName = none ∧
        ∀ tc : TypeChecker, (tc.collectSignature unit).functions = tc.functions) ∨
      ∃ name sig, unit.callableName = some name ∧ unit.signature = some sig ∧
        sig.isUserDefined = true ∧
        ∀ tc : TypeChecker, (tc.collectSignature unit).functions = (name, sig) :: tc.functions := by
  cases unit with
  | program p => exact .inl ⟨rfl, fun _ => rfl⟩
  | functionBlock fb => exact .inr ⟨_, _, rfl, rfl, rfl, fun _ => rfl⟩
  | function f => exact .inr ⟨_, _, rfl, rfl, rfl, fun _ => rfl⟩

/-- The checker finds the signature of the last POU of a name, else that of a host function. -/
theorem lookup_callables (ast : CompilationUnit) (name : String) :
    (∃ j unit sig, LastAt ast.callableNames (some name) j ∧ ast.units[j]? = some unit ∧
        unit.signature = some sig ∧ sig.isUserDefined = true ∧
        ast.callables.lookup name = some sig) ∨
      some name ∉ ast.callableNames ∧ ast.callables.lookup name = hostSignatures.lookup name := by
  obtain ⟨units⟩ := ast
  rw [CompilationUnit.callables, CompilationUnit.callableNames]
  dsimp only
  induction units using List.reverseRecOn with
  | nil => exact .inr ⟨nofun, rfl⟩
  | append_singleton units unit ih =>
    rw [List.foldl_append, List.map_append]
    show (∃ j unit' sig, LastAt (_ ++ [unit.callableName]) (some name) j ∧ _ ∧ _ ∧ _ ∧
      (TypeChecker.collectSignature _ unit).functions.lookup name = some sig) ∨
      _ ∧ (TypeChecker.collectSignature _ unit).functions.lookup name = _
    by_cases hname : unit.callableName = some name
    · -- the last POU has the name
      left
      rcases collectSignature_cases unit with ⟨hnone, -⟩ | ⟨other, sig, hother, hsig, huser, hfuns⟩
      · rw [hname] at hnone
        cases hnone
      · rw [hname] at hother
        cases hother
        refine ⟨units.length, unit, sig, ?_, by simp, hsig, huser, ?_⟩
        · have hlast := lastAt_concat_self (units.map ProgramUnit.callableName) (some name)
          rw [List.length_map] at hlast
          rw [hname]
          exact hlast
        · rw [hfuns]
          exact List.lookup_cons_self
    · -- the last POU has another name, or none, and is passed over
      have hlookup : ∀ tc : TypeChecker, (tc.collectSignature unit).functions.lookup name =
          tc.functions.lookup name := by
        intro tc
        rcases collectSignature_cases unit with ⟨-, hfuns⟩ | ⟨other, sig, hother, -, -, hfuns⟩
        · rw [hfuns]
        · have hne : (name == other) = false := beq_false_of_ne fun h => hname (by rw [hother, h])
          rw [hfuns, List.lookup_cons, hne]
      rw [hlookup]
      rcases ih with ⟨j, unit', sig, hlast, hj, hsig, huser, hfound⟩ | ⟨hnone, hfound⟩
      · refine .inl ⟨j, unit', sig, (lastAt_concat_of_ne hname).mpr hlast, ?_, hsig, huser, hfound⟩
        have hlt := hlast.lt
        rw [List.length_map] at hlt
        rw [List.getElem?_append_left hlt, hj]
      · refine .inr ⟨?_, hfound⟩
        intro hmem
        rcases List.mem_append.mp hmem with hmem | hmem
        · exact hnone hmem
        · exact hname (List.mem_singleton.mp hmem).symm

/-- A checked POU keeps its name and its kind. -/
theorem checkPou_names {b : Build} {tc tc' : TypeChecker} {unit : ProgramUnit} {pou : TypedPou}
    (h : tc.checkPou b unit = .ok (pou, tc')) :
    pou.functionName = unit.functionName ∧ (pou.isStep = true ↔ ∃ p, unit = .program p) := by
  cases unit with
  | program p =>
    obtain ⟨⟨tp, tc1⟩, hp, h⟩ := bind_eq_ok.1 h
    cases h
    exact ⟨rfl, fun _ => ⟨p, rfl⟩, fun _ => rfl⟩
  | functionBlock fb =>
    obtain ⟨⟨tp, tc1⟩, hp, h⟩ := bind_eq_ok.1 h
    cases h
    obtain ⟨tc2, -, hp⟩ := bind_eq_ok.1 hp
    obtain ⟨body, -, hp⟩ := bind_eq_ok.1 hp
    cases hp
    refine ⟨rfl, ?_, ?_⟩
    · intro h
      cases h
    · rintro ⟨p, h⟩
      cases h
  | function f =>
    obtain ⟨⟨tp, tc1⟩, hp, h⟩ := bind_eq_ok.1 h
    cases h
    obtain ⟨tc2, -, hp⟩ := bind_eq_ok.1 hp
    obtain ⟨tc3, -, hp⟩ := bind_eq_ok.1 hp
    obtain ⟨body, -, hp⟩ := bind_eq_ok.1 hp
    cases hp
    refine ⟨rfl, ?_, ?_⟩
    · intro h
      cases h
    · rintro ⟨p, h⟩
      cases h

theorem checkPous_names {b : Build} {units : List ProgramUnit} {tc tc' : TypeChecker}
    {pous : List TypedPou} (h : tc.checkPous b units = .ok (pous, tc')) :
    List.Forall₂ (fun unit pou => pou.functionName = unit.functionName ∧
      (pou.isStep = true ↔ ∃ p, unit = .program p)) units pous := by
  induction units generalizing tc pous with
  | nil =>
    cases h
    exact .nil
  | cons unit rest ih =>
    obtain ⟨⟨pou, tc1⟩, h1, h⟩ := bind_eq_ok.1 h
    obtain ⟨⟨pous', tc2⟩, h2, h⟩ := bind_eq_ok.1 h
    cases h
    exact .cons (checkPou_names h1) (ih h2)

/-- The POUs of an accepted unit keep their names and kinds. -/
theorem check_names {b : Build} {ast : CompilationUnit} {typed : TypedUnit}
    (h : check b ast = .ok typed) :
    List.Forall₂ (fun unit pou => pou.functionName = unit.functionName ∧
      (pou.isStep = true ↔ ∃ p, unit = .program p)) ast.units typed.units := by
  obtain ⟨⟨pous, tc⟩, hp, h⟩ := bind_eq_ok.1 h
  cases h
  exact checkPous_names hp

/-! ## Resolved calls -/

/-- The function `i` of the module is what the checker resolves the call to: the last POU of the
name, whose signature it finds, or the host function of the name. -/
inductive ResolvesTo (ast : CompilationUnit) (m : Wasm.Module) : String × Bool → Nat → Prop
  | pou {name : String} {j : Nat} {unit : ProgramUnit}
      (hlast : LastAt ast.callableNames (some name) j) (hunit : ast.units[j]? = some unit)
      (hfound : ast.callables.lookup name = unit.signature) :
      ResolvesTo ast m (name, true) (m.imports.length + j)
  | host {name : String} {i : Nat} {sig : FunctionSignature} {function : Import}
      (hfound : ast.callables.lookup name = some sig) (hhost : sig.isUserDefined = false)
      (himport : m.imports[i]? = some function) (hname : function.name = name) :
      ResolvesTo ast m (name, false) i

/-- The calls of the module are those of the unit, each to its target, the functions of the module
are the POUs of the unit, and the exported `step` is the PROGRAM. -/
structure CallsResolved (ast : CompilationUnit) (typed : TypedUnit) (m : Wasm.Module) : Prop where
  code : m.funcs = typed.units.map (TypedPou.func typed.emitter.link)
  calls : ∀ (j : Nat) (pou : TypedPou) (f : Func), typed.units[j]? = some pou →
    m.funcs[j]? = some f →
    List.Forall₂ (ResolvesTo ast m) (stmtsCalls pou.body) (callTargets f.body)
  exports : ∀ i, ⟨"step", .func, i⟩ ∈ m.exports ↔
    ∃ j p, ast.units[j]? = some (.program p) ∧ i = m.imports.length + j

/-- If a POU named `step` is called, no PROGRAM comes after the last one. -/
def StepApart (ast : CompilationUnit) (typed : TypedUnit) : Prop :=
  ("step", true) ∈ typed.calls → ∀ j, LastAt ast.callableNames (some "step") j →
    ∀ k p, j < k → ast.units[k]? ≠ some (.program p)

theorem functionName_of_callable {unit : ProgramUnit} {name : String}
    (h : unit.callableName = some name) : unit.functionName = name := by
  cases unit with
  | program p => cases h
  | functionBlock fb => exact Option.some.inj h
  | function f => exact Option.some.inj h

/-- A name that the checker finds a POU for is the name of a function. -/
theorem exists_function {ast : CompilationUnit} {name : String} {j : Nat}
    (hlast : LastAt ast.callableNames (some name) j) :
    ∃ k, LastAt (ast.units.map ProgramUnit.functionName) name k := by
  apply exists_lastAt
  obtain ⟨unit, hunit, hname⟩ := List.mem_map.mp hlast.mem
  exact List.mem_map.mpr ⟨unit, hunit, functionName_of_callable hname⟩

/-- A host function that the checker finds is an import. -/
theorem host_import (typed : TypedUnit) {name : String} {sig : FunctionSignature}
    (hfound : hostSignatures.lookup name = some sig) :
    sig.isUserDefined = false ∧ ∃ i function, typed.emitter.resolve name false = .ok i ∧
      importHostFunctions[i]? = some function ∧ function.name = name := by
  obtain ⟨before, after, hsplit, -⟩ := List.lookup_eq_some_iff.mp hfound
  have hmem : (name, sig) ∈ hostSignatures := by
    rw [hsplit]
    simp
  simp only [hostSignatures, List.mem_cons, List.not_mem_nil, or_false, Prod.mk.injEq] at hmem
  rcases hmem with ⟨rfl, rfl⟩ | ⟨rfl, rfl⟩ | ⟨rfl, rfl⟩ | ⟨rfl, rfl⟩ | ⟨rfl, rfl⟩
  · exact ⟨rfl, 4, _, rfl, rfl, rfl⟩
  · exact ⟨rfl, 3, _, rfl, rfl, rfl⟩
  · exact ⟨rfl, 2, _, rfl, rfl, rfl⟩
  · exact ⟨rfl, 1, _, rfl, rfl, rfl⟩
  · exact ⟨rfl, 0, _, rfl, rfl, rfl⟩

theorem mem_stepExports (e : Export) (pous : List TypedPou) (first : Nat) :
    e ∈ stepExports pous first ↔ ∃ j pou, pous[j]? = some pou ∧ pou.isStep = true ∧
      e = ⟨"step", .func, first + j⟩ := by
  induction pous generalizing first with
  | nil =>
    constructor
    · intro he
      cases he
    · rintro ⟨j, pou, hpou, -⟩
      cases hpou
  | cons pou rest ih =>
    have hrest : (∃ j pou', rest[j]? = some pou' ∧ pou'.isStep = true ∧
        e = ⟨"step", .func, first + 1 + j⟩) ↔
        ∃ j pou', (pou :: rest)[j + 1]? = some pou' ∧ pou'.isStep = true ∧
          e = ⟨"step", .func, first + (j + 1)⟩ := by
      simp [Nat.add_assoc, Nat.add_comm 1]
    rw [stepExports]
    cases hstep : pou.isStep with
    | true =>
      rw [if_pos rfl, List.mem_cons, ih, hrest]
      constructor
      · rintro (rfl | ⟨j, h⟩)
        · exact ⟨0, pou, rfl, hstep, rfl⟩
        · exact ⟨j + 1, h⟩
      · rintro ⟨j, pou', hpou, h⟩
        cases j with
        | zero => exact .inl h.2
        | succ j => exact .inr ⟨j, pou', hpou, h⟩
    | false =>
      rw [if_neg Bool.false_ne_true, ih, hrest]
      constructor
      · rintro ⟨j, h⟩
        exact ⟨j + 1, h⟩
      · rintro ⟨j, pou', hpou, hstep', h⟩
        cases j with
        | zero =>
          cases hpou
          exact absurd (hstep.symm.trans hstep') Bool.false_ne_true
        | succ j => exact ⟨j, pou', hpou, hstep', h⟩

section Accepted

variable {b : Build} {ast : CompilationUnit} {typed : TypedUnit} (h : check b ast = .ok typed)
include h

theorem functionNames_eq :
    typed.units.map TypedPou.functionName = ast.units.map ProgramUnit.functionName := by
  have hnames := check_names h
  generalize ast.units = units at hnames
  generalize typed.units = pous at hnames
  induction hnames with
  | nil => rfl
  | cons hpou _ ih => rw [List.map_cons, List.map_cons, hpou.1, ih]

/-- A called POU resolves to the last function of its name. -/
theorem resolve_user_iff (name : String) (i : Nat) :
    typed.emitter.resolve name true = .ok i ↔
      ∃ j, LastAt (ast.units.map ProgramUnit.functionName) name j ∧
        i = importHostFunctions.length + j := by
  have hlookup : typed.emitter.userFuncs.lookup name = some i ↔
      ∃ j, LastAt (ast.units.map ProgramUnit.functionName) name j ∧
        i = importHostFunctions.length + j := by
    rw [← lookup_reverse_zipIdx, ← functionNames_eq h]
    rfl
  rw [WasmEmitter.resolve, if_pos rfl, ← hlookup]
  cases typed.emitter.userFuncs.lookup name with
  | none =>
    constructor
    · intro hi
      cases hi
    · intro hi
      cases hi
  | some k => simp only [Except.ok.injEq, Option.some.injEq]

/-- The calls of an accepted unit are known to the checker. -/
theorem calls_known {pou : TypedPou} (hpou : pou ∈ typed.units) :
    Known ast.callables (stmtsCalls pou.body) := by
  obtain ⟨j, hj⟩ := List.mem_iff_getElem?.mp hpou
  obtain ⟨unit, -, tc, tc', hfunctions, hdeclare, -, hbody⟩ :=
    (forall₂_getElem? (check_ok h) j).2 pou hj
  have hknown := checkStatements_known unit.body hbody
  rwa [(declare_ok hdeclare).2, hfunctions] at hknown

/-- Every call of an accepted unit resolves, and a module is emitted. -/
theorem emit_accepted : emit (lower typed) = .ok typed.module := by
  have hcalls : typed.emitter.resolveAll typed.calls = .ok () := by
    rw [WasmEmitter.resolveAll_ok_iff]
    rintro ⟨name, user⟩ hc
    obtain ⟨pou, hpou, hmem⟩ := List.mem_flatMap.mp hc
    obtain ⟨sig, hfound, huser⟩ := calls_known h hpou _ hmem
    rcases lookup_callables ast name with ⟨j, unit, sig', hlast, -, -, hsig, hpous⟩ | ⟨-, hhost⟩
    · cases hfound.symm.trans hpous
      obtain ⟨k, hk⟩ := exists_function hlast
      rw [hsig] at huser
      dsimp only at huser ⊢
      rw [huser]
      exact ⟨_, (resolve_user_iff h name _).mpr ⟨k, hk, rfl⟩⟩
    · obtain ⟨hsig, i, function, hresolve, -, -⟩ := host_import typed (hhost.symm.trans hfound)
      rw [hsig] at huser
      dsimp only at huser ⊢
      rw [huser]
      exact ⟨i, hresolve⟩
  rw [emit_lower, hcalls]
  rfl

/-- Where no PROGRAM hides it, a call links to the POU that the checker finds. -/
theorem link_of_stepApart {name : String} {j : Nat}
    (hlast : LastAt ast.callableNames (some name) j)
    (happart : name = "step" → ∀ k p, j < k → ast.units[k]? ≠ some (.program p)) :
    typed.emitter.link name true = importHostFunctions.length + j := by
  have hfunction : LastAt (ast.units.map ProgramUnit.functionName) name j := by
    obtain ⟨hj, hafter⟩ := hlast
    rw [CompilationUnit.callableNames, List.getElem?_map, Option.map_eq_some_iff] at hj
    obtain ⟨unit, hunit, hname⟩ := hj
    refine ⟨by rw [List.getElem?_map, hunit, Option.map_some, functionName_of_callable hname], ?_⟩
    intro k hk heq
    rw [List.getElem?_map, Option.map_eq_some_iff] at heq
    obtain ⟨unit', hunit', hname'⟩ := heq
    have hother := hafter k hk
    rw [CompilationUnit.callableNames, List.getElem?_map, hunit'] at hother
    -- a later function of the name is a PROGRAM, whose function is named `step`
    cases unit' with
    | program p => exact happart hname'.symm k p hk hunit'
    | functionBlock fb => exact hother (congrArg (some ∘ some) hname')
    | function f => exact hother (congrArg (some ∘ some) hname')
  rw [WasmEmitter.link, (resolve_user_iff h name _).mpr ⟨j, hfunction, rfl⟩]

/-- A known call that no PROGRAM hides links to its target. -/
theorem targets_of_stepApart (happart : StepApart ast typed) {pou : TypedPou}
    (hpou : pou ∈ typed.units) {c : String × Bool} (hc : c ∈ stmtsCalls pou.body) :
    ResolvesTo ast typed.module c (typed.emitter.link c.1 c.2) := by
  obtain ⟨name, user⟩ := c
  obtain ⟨sig, hfound, huser⟩ := calls_known h hpou _ hc
  dsimp only at hfound huser ⊢
  rcases lookup_callables ast name with ⟨j, unit, sig', hlast, hj, hunit, hsig, hpous⟩ | ⟨-, hhost⟩
  · cases hfound.symm.trans hpous
    rw [hsig] at huser
    subst huser
    have hlink := link_of_stepApart h hlast fun hname k p hk => by
      subst hname
      exact happart (List.mem_flatMap.mpr ⟨pou, hpou, hc⟩) j hlast k p hk
    rw [hlink]
    exact .pou hlast hj (hfound.trans hunit.symm)
  · obtain ⟨hsig, i, function, hresolve, himport, hname⟩ :=
      host_import typed (hhost.symm.trans hfound)
    rw [hsig] at huser
    subst huser
    rw [WasmEmitter.link, hresolve]
    exact .host hfound hsig himport hname

/-- The exported step functions are the PROGRAMs. -/
theorem step_exported_iff (i : Nat) : ⟨"step", .func, i⟩ ∈ typed.module.exports ↔
    ∃ j p, ast.units[j]? = some (.program p) ∧ i = importHostFunctions.length + j := by
  show _ ∈ stepExports typed.units importHostFunctions.length ++ _ ↔ _
  rw [List.mem_append, mem_stepExports]
  have hnames := check_names h
  constructor
  · rintro (⟨j, pou, hpou, hstep, heq⟩ | hmem)
    · obtain ⟨unit, hunit, -, hkind⟩ := (forall₂_getElem? hnames j).2 pou hpou
      obtain ⟨p, rfl⟩ := hkind.mp hstep
      cases heq
      exact ⟨j, p, hunit, rfl⟩
    · have hname : "step" = "memory" := congrArg Export.name (List.mem_singleton.mp hmem)
      exact absurd hname (by decide)
  · rintro ⟨j, p, hunit, rfl⟩
    obtain ⟨pou, hpou, -, hkind⟩ := (forall₂_getElem? hnames j).1 _ hunit
    exact .inl ⟨j, pou, hpou, hkind.mpr ⟨p, rfl⟩, rfl⟩

/-- In a module without a hidden `step`, every call goes to its target. -/
theorem callsResolved_of_stepApart (happart : StepApart ast typed) :
    CallsResolved ast typed typed.module := by
  refine ⟨rfl, ?_, step_exported_iff h⟩
  intro j pou f hpou hf
  have hfunc : f = pou.func typed.emitter.link := by
    have hget : (typed.units.map (TypedPou.func typed.emitter.link))[j]? = some f := hf
    rw [List.getElem?_map, hpou] at hget
    exact (Option.some.inj hget).symm
  rw [hfunc, callTargets_func]
  -- the call instructions are the linked calls, one by one
  have hmem : ∀ c ∈ stmtsCalls pou.body,
      ResolvesTo ast typed.module c (typed.emitter.link c.1 c.2) :=
    fun c hc => targets_of_stepApart h happart (List.mem_of_getElem? hpou) hc
  generalize stmtsCalls pou.body = calls at hmem
  induction calls with
  | nil => exact .nil
  | cons c cs ih =>
    exact .cons (hmem c List.mem_cons_self) (ih fun c' hc => hmem c' (List.mem_cons_of_mem _ hc))

/-- A hidden `step` that is called makes a call go astray. -/
theorem stepApart_of_callsResolved (hcalls : CallsResolved ast typed typed.module) :
    StepApart ast typed := by
  intro hstep j hlast k p hk hprogram
  obtain ⟨pou, hpou, hmem⟩ := List.mem_flatMap.mp hstep
  obtain ⟨i, hi⟩ := List.mem_iff_getElem?.mp hpou
  have hf : typed.module.funcs[i]? = some (pou.func typed.emitter.link) := by
    show (typed.units.map _)[i]? = _
    rw [List.getElem?_map, hi]
    rfl
  have htargets := hcalls.calls i pou _ hi hf
  rw [callTargets_func] at htargets
  -- the target of the call is the last POU named `step`
  have htarget : ResolvesTo ast typed.module ("step", true) (typed.emitter.link "step" true) := by
    generalize stmtsCalls pou.body = calls at htargets hmem
    induction calls with
    | nil => cases hmem
    | cons c cs ih =>
      cases htargets with
      | cons hc hcs =>
        rcases List.mem_cons.mp hmem with rfl | hmem
        · exact hc
        · exact ih hcs hmem
  obtain ⟨l, hl, hi'⟩ : ∃ l, LastAt ast.callableNames (some "step") l ∧
      typed.emitter.link "step" true = importHostFunctions.length + l := by
    generalize typed.emitter.link "step" true = target at htarget
    cases htarget with
    | pou hlast' hunit hfound => exact ⟨_, hlast', rfl⟩
  cases hl.unique hlast
  -- but the call links to the last function of the name, and a PROGRAM after it is one
  obtain ⟨last, hlast'⟩ := exists_function hlast
  rw [WasmEmitter.link, (resolve_user_iff h "step" _).mpr ⟨last, hlast', rfl⟩] at hi'
  have hle : k ≤ last := by
    by_contra hgt
    refine hlast'.2 k (by omega) ?_
    rw [List.getElem?_map, hprogram]
    rfl
  dsimp only at hi'
  omega

end Accepted

/-- In the module of an accepted unit every call instruction is a call of the source and goes to the
POU or the host function that the checker resolved it to, and the exported `step` is the PROGRAM,
exactly when no called POU named `step` has a PROGRAM after it. -/
theorem callsResolved_iff (b : Build) (ast : CompilationUnit) {typed : TypedUnit}
    (h : check b ast = .ok typed) :
    emit (lower typed) = .ok typed.module ∧
      (CallsResolved ast typed typed.module ↔ StepApart ast typed) :=
  ⟨emit_accepted h, stepApart_of_callsResolved h, callsResolved_of_stepApart h⟩

/-- A function named `step` and a program that calls it with an argument. -/
def stepUnit (programFirst : Bool) : CompilationUnit :=
  let function : ProgramUnit :=
    .function ⟨"step", .int, [⟨.input, false, [⟨"a", .int, none⟩]⟩], []⟩
  let program : ProgramUnit :=
    .program ⟨"Main", [], [.callStmt "step" [(none, .literal (.integer 1))]]⟩
  ⟨if programFirst then [program, function] else [function, program]⟩

theorem callsResolved_program_first : ∃ typed, check .debug (stepUnit true) = .ok typed ∧
    CallsResolved (stepUnit true) typed typed.module := by
  refine ⟨_, rfl, (callsResolved_iff .debug (stepUnit true) rfl).2.mpr ?_⟩
  intro _ j hlast k p hk hprogram
  have hj : j = 1 := hlast.unique ⟨rfl, by
    intro k hk
    have hnone : (stepUnit true).callableNames[k]? = none := List.getElem?_eq_none hk
    rw [hnone]
    exact nofun⟩
  subst hj
  have hnone : (stepUnit true).units[k]? = none := List.getElem?_eq_none hk
  rw [hnone] at hprogram
  cases hprogram

/-- After a function named `step`, the call of it in a program calls the program. -/
theorem callsResolved_fails : ∃ typed, check .debug (stepUnit false) = .ok typed ∧
    ¬ CallsResolved (stepUnit false) typed typed.module := by
  refine ⟨_, rfl, fun hcalls => ?_⟩
  have happart := stepApart_of_callsResolved (b := .debug) rfl hcalls
  refine happart List.mem_cons_self 0 ⟨rfl, ?_⟩ 1 _ Nat.zero_lt_one rfl
  intro k hk
  cases k with
  | zero => cases hk
  | succ k =>
    cases k with
    | zero => exact nofun
    | succ k => exact nofun

end VirtualPlc.Compiler
