import VirtualPlc.Compiler.Access
import VirtualPlc.Compiler.Emission

/-!
# Types of the generated code

A source-level typing of what the code generator can translate. `TypedExpr.valueType` is the type of
the one operand that the code of an expression leaves, `stmtTyped` says that a statement leaves no
operand behind. The conditions are about operators, declared types and the parameters of the
imported functions. `typeSound_iff` shows that a compilation unit of typed statements becomes a
valid module exactly if it has one step function at most; the type checker accepts other units too.
-/

set_option autoImplicit false

namespace VirtualPlc.Compiler

open VirtualPlc.Word VirtualPlc.Wasm VirtualPlc.Control

universe u

/-! ## Typed expressions -/

/-- Type of the result of a binary operator on two operands of type `ty`, where the generated
operation is one for that type. -/
def BinaryOp.resultType (op : BinaryOp) (ty : DataType) : Option ValType :=
  match op with
  | .add | .sub | .mul | .div => if ty = .lword then none else some ty.valType
  | .eq => if ty.valType = .i64 then none else some .i32
  | .lt | .gt => if ty.valType = .i64 ∨ ty.valType = .f64 then none else some .i32
  -- `**` only pushes another constant
  | .pow => none
  | .mod | .ne | .le | .ge | .and | .or | .xor | .bitAnd | .bitOr | .bitXor | .shl | .shr =>
    if ty.valType = .i32 then some .i32 else none

/-- The generated operations of a unary operator are ones for an operand of type `ty`. -/
def UnaryOp.accepts (op : UnaryOp) (ty : DataType) : Bool :=
  match op with
  | .neg => ty.valType != .i64
  | .not => ty.valType == .i32

/-- Type of the constant of a literal. -/
def TypedLiteral.valType : TypedLiteral → ValType
  | .bool _ => .i32
  | .integer _ bits => if bits ≤ 32 then .i32 else .i64
  | .real32 _ => .f32
  | .real64 _ => .f64
  | .time _ => .i64

/-- Type of an imported function. -/
def hostType (name : String) : Option FuncType :=
  (importHostFunctions.find? (·.name = name)).bind fun i => defineTypes[i.typeIndex]?

/-- Result of a call with arguments of the given types: a host function with exactly these
parameters and one result. The generated functions have neither parameters nor results. -/
def callType (name : String) (isUserDefined : Bool) (arguments : Option (List ValType)) :
    Option ValType :=
  match isUserDefined, hostType name with
  | false, some ⟨params, [result]⟩ => if arguments = some params then some result else none
  | _, _ => none

mutual
/-- Type of the operand that the code of an expression leaves. -/
def TypedExpr.valueType : TypedExpr → Option ValType
  | .literal lit _ => some lit.valType
  | .variable _ _ ty => some ty.valType
  | .arrayAccess array index _ ty =>
    if array.addressTyped ∧ index.valueType = some .i32 then some ty.valType else none
  | .fieldAccess object _ _ ty => if object.addressTyped then some ty.valType else none
  | .binary left op right _ =>
    if left.valueType = some left.ty.valType ∧ right.valueType = some left.ty.valType then
      op.resultType left.ty
    else none
  | .unary op operand _ =>
    if operand.valueType = some operand.ty.valType ∧ op.accepts operand.ty then
      some operand.ty.valType
    else none
  | .call name arguments isUserDefined _ => callType name isUserDefined (argumentTypes arguments)
/-- The code of the address of an expression leaves one `i32`. -/
def TypedExpr.addressTyped : TypedExpr → Bool
  | .arrayAccess array index _ _ => array.addressTyped && index.valueType == some .i32
  | .literal .. | .variable .. | .fieldAccess .. | .binary .. | .unary .. | .call .. => true
/-- Types of the operands that call arguments leave. -/
def argumentTypes : List TypedExpr → Option (List ValType)
  | [] => some []
  | e :: es =>
    match e.valueType, argumentTypes es with
    | some t, some ts => some (t :: ts)
    | _, _ => none
end

/-- The expression leaves one `i32`. -/
def TypedExpr.isWord (e : TypedExpr) : Bool := e.valueType == some .i32

/-! ## Typed statements -/

mutual
/-- The code of a statement finds the operands it needs and leaves none. -/
def stmtTyped : TypedStatement → Bool
  | .assignment target value => target.addressTyped && value.valueType == some target.ty.valType
  | .ifStmt condition thenBranch elsifBranches elseBranch =>
    condition.isWord && (stmtsTyped thenBranch && (elsifsTyped elsifBranches &&
      (match elseBranch with
        | some stmts => stmtsTyped stmts
        | none => true)))
  -- the variable of a FOR is loaded and stored as an `i32` whatever its type
  | .forStmt _ _ start stop step body =>
    start.isWord && (stop.isWord && (stmtsTyped body &&
      (match step with
        | some e => e.isWord
        | none => true)))
  | .whileStmt condition body => condition.isWord && stmtsTyped body
  | .repeatStmt body untilCond => stmtsTyped body && untilCond.isWord
  | .caseStmt selector branches elseBranch =>
    selector.isWord && (branchesTyped branches &&
      (match elseBranch with
        | some stmts => stmtsTyped stmts
        | none => true))
  | .returnStmt value =>
    match value with
    | some e => e.valueType.isSome
    | none => true
  -- a call statement drops a result
  | .callStmt name arguments isUserDefined =>
    (callType name isUserDefined (argumentTypes arguments)).isSome
  | .exitStmt | .continueStmt | .empty => true
/-- The statements of a list. -/
def stmtsTyped : List TypedStatement → Bool
  | [] => true
  | stmt :: rest => stmtTyped stmt && stmtsTyped rest
/-- The ELSIF branches. -/
def elsifsTyped : List (TypedExpr × List TypedStatement) → Bool
  | [] => true
  | (condition, stmts) :: rest => condition.isWord && (stmtsTyped stmts && elsifsTyped rest)
/-- The CASE branches that have a label. -/
def branchesTyped : List (List Int × List TypedStatement) → Bool
  | [] => true
  | ([], _) :: rest => branchesTyped rest
  | (_ :: _, stmts) :: rest => stmtsTyped stmts && branchesTyped rest
end

/-- Every statement of the compilation unit is typed. -/
def TypedUnit.Typed (typed : TypedUnit) : Prop :=
  ∀ pou ∈ typed.units, stmtsTyped pou.body = true

/-! ## Call sites -/

/-- A call: the function and the arguments pushed for it. -/
structure CallSite where
  name : String
  arguments : List TypedExpr
  isUserDefined : Bool

mutual
/-- The call sites in the code of an expression. -/
def exprSites : TypedExpr → List CallSite
  | .literal .. => []
  | .variable .. => []
  | .arrayAccess array index _ _ => addressSites array ++ exprSites index
  | .fieldAccess object _ _ _ => addressSites object
  | .binary left _ right _ => exprSites left ++ exprSites right
  | .unary _ operand _ => exprSites operand
  | .call name arguments isUserDefined _ =>
    argumentsSites arguments ++ [⟨name, arguments, isUserDefined⟩]
/-- The call sites in the code of an address. -/
def addressSites : TypedExpr → List CallSite
  | .arrayAccess array index _ _ => addressSites array ++ exprSites index
  | .literal .. | .variable .. | .fieldAccess .. | .binary .. | .unary .. | .call .. => []
/-- The call sites in the code of call arguments. -/
def argumentsSites : List TypedExpr → List CallSite
  | [] => []
  | e :: es => exprSites e ++ argumentsSites es
end

mutual
/-- The call sites in the code of a statement. -/
def stmtSites : TypedStatement → List CallSite
  | .assignment target value => addressSites target ++ exprSites value
  | .ifStmt condition thenBranch elsifBranches elseBranch =>
    exprSites condition ++ (stmtsSites thenBranch ++ (elsifsSites elsifBranches ++
      (match elseBranch with
        | some stmts => stmtsSites stmts
        | none => [])))
  | .forStmt _ _ start stop step body =>
    exprSites start ++ (exprSites stop ++ (stmtsSites body ++
      (match step with
        | some e => exprSites e
        | none => [])))
  | .whileStmt condition body => exprSites condition ++ stmtsSites body
  | .repeatStmt body untilCond => stmtsSites body ++ exprSites untilCond
  | .caseStmt selector branches elseBranch =>
    exprSites selector ++ (branchesSites branches ++
      (match elseBranch with
        | some stmts => stmtsSites stmts
        | none => []))
  | .returnStmt value =>
    match value with
    | some e => exprSites e
    | none => []
  | .callStmt name arguments isUserDefined =>
    argumentsSites arguments ++ [⟨name, arguments, isUserDefined⟩]
  | .exitStmt | .continueStmt | .empty => []
/-- The call sites in the code of statements. -/
def stmtsSites : List TypedStatement → List CallSite
  | [] => []
  | stmt :: rest => stmtSites stmt ++ stmtsSites rest
/-- The call sites in the code of ELSIF branches. -/
def elsifsSites : List (TypedExpr × List TypedStatement) → List CallSite
  | [] => []
  | (condition, stmts) :: rest => exprSites condition ++ (stmtsSites stmts ++ elsifsSites rest)
/-- The call sites in the code of CASE branches. -/
def branchesSites : List (List Int × List TypedStatement) → List CallSite
  | [] => []
  | ([], _) :: rest => branchesSites rest
  | (_ :: _, stmts) :: rest => stmtsSites stmts ++ branchesSites rest
end

/-- The code of the arguments pushes exactly the parameters of the called function. -/
def CallSite.Matches (site : CallSite) (m : Wasm.Module) (link : String → Bool → Nat) : Prop :=
  ∃ ft, m.funcType (link site.name site.isUserDefined) = some ft ∧
    checkSeq ⟨[], m.funcType⟩ 1 (argumentsCode link site.arguments) .empty =
      some ⟨ft.params.reverse, false⟩

/-- The compilation unit becomes a valid module in which every call pushes what its function
takes. -/
def TypedUnit.TypeSound (typed : TypedUnit) : Prop :=
  ∃ m, emit (lower typed) = .ok m ∧ m.Valid ∧
    ∀ pou ∈ typed.units, ∀ site ∈ stmtsSites pou.body, site.Matches m typed.emitter.link

/-! ## Operations -/

section Operations

variable (ctx : Context) (labels : Nat)

theorem checkSeq_ops_cons (o : Op) (os : List Op) (s : Operands) :
    checkSeq ctx labels (ops (o :: os)) s =
      (checkOp ctx labels o s).bind (checkSeq ctx labels (ops os)) := rfl

/-- The operation takes two operands of type `t` and leaves one of type `r`. -/
def Combines (o : Op) (t r : ValType) : Prop :=
  ∀ (ctx : Context) (labels : Nat) (s : Operands),
    checkOp ctx labels o ((s.push t).push t) = some (s.push r)

theorem selectOp_eq {ty : DataType} (h : ty ≠ .lword) (i32 i64 f32 f64 : Op) :
    selectOp ty i32 i64 f32 f64 =
      match ty.valType with
      | .i32 => i32
      | .i64 => i64
      | .f32 => f32
      | .f64 => f64 := by
  cases ty <;> first | rfl | exact absurd rfl h

theorem combines_select {ty : DataType} (h : ty ≠ .lword) {i32 i64 f32 f64 : Op}
    (h32 : Combines i32 .i32 .i32) (h64 : Combines i64 .i64 .i64) (hf32 : Combines f32 .f32 .f32)
    (hf64 : Combines f64 .f64 .f64) :
    Combines (selectOp ty i32 i64 f32 f64) ty.valType ty.valType := by
  rw [selectOp_eq h]
  cases ty.valType with
  | i32 => exact h32
  | i64 => exact h64
  | f32 => exact hf32
  | f64 => exact hf64

theorem combines_i32 {ty : DataType} {r : ValType} {o : Op} (ho : Combines o .i32 .i32)
    (h : (if ty.valType = .i32 then some ValType.i32 else none) = some r) :
    Combines o ty.valType r := by
  by_cases hty : ty.valType = .i32
  · rw [if_pos hty, Option.some.injEq] at h
    rw [hty, ← h]
    exact ho
  · rw [if_neg hty] at h
    cases h

/-- The operation chosen for a binary operator fits where it has a result type. -/
theorem binaryOp_combines {op : BinaryOp} {ty : DataType} {r : ValType}
    (h : op.resultType ty = some r) : Combines (binaryOp op ty) ty.valType r := by
  cases op with
  | add | sub | mul | div =>
    by_cases hty : ty = .lword
    · rw [BinaryOp.resultType, if_pos hty] at h
      cases h
    · rw [BinaryOp.resultType, if_neg hty, Option.some.injEq] at h
      rw [← h]
      exact combines_select hty (fun _ _ _ => rfl) (fun _ _ _ => rfl) (fun _ _ _ => rfl)
        (fun _ _ _ => rfl)
  | eq =>
    by_cases hty : ty.valType = .i64
    · rw [BinaryOp.resultType, if_pos hty] at h
      cases h
    · rw [BinaryOp.resultType, if_neg hty, Option.some.injEq] at h
      have hlword : ty ≠ .lword := fun heq => hty (by rw [heq]; rfl)
      rw [← h, binaryOp, selectOp_eq hlword]
      cases hv : ty.valType with
      | i64 => exact absurd hv hty
      | i32 | f32 | f64 => exact fun _ _ _ => rfl
  | lt | gt =>
    by_cases hty : ty.valType = .i64 ∨ ty.valType = .f64
    · rw [BinaryOp.resultType, if_pos hty] at h
      cases h
    · rw [BinaryOp.resultType, if_neg hty, Option.some.injEq] at h
      have hlword : ty ≠ .lword := fun heq => hty (.inl (by rw [heq]; rfl))
      rw [← h, binaryOp, selectOp_eq hlword]
      cases hv : ty.valType with
      | i64 => exact absurd (.inl hv) hty
      | f64 => exact absurd (.inr hv) hty
      | i32 | f32 => exact fun _ _ _ => rfl
  | pow => cases h
  | mod | ne | le | ge | and | or | xor | bitAnd | bitOr | bitXor | shl | shr =>
    exact combines_i32 (fun _ _ _ => rfl) h

theorem unaryOps_accepts {op : UnaryOp} {ty : DataType} (h : op.accepts ty = true) (s : Operands) :
    checkSeq ctx labels (ops (unaryOps op ty)) (s.push ty.valType) = some (s.push ty.valType) := by
  cases op with
  | neg =>
    cases ty with
    | lint | ulint | lword | time => cases h
    | _ => rfl
  | not =>
    rw [UnaryOp.accepts, beq_iff_eq] at h
    rw [h]
    rfl

theorem checkOp_loadOp (ty : DataType) (offset : Nat) (s : Operands) :
    checkOp ctx labels (loadOp ty offset) (s.push .i32) = some (s.push ty.valType) := by
  cases ty <;> rfl

theorem checkOp_storeOp (ty : DataType) (s : Operands) :
    checkOp ctx labels (storeOp ty) ((s.push .i32).push ty.valType) = some s := by
  cases ty <;> rfl

theorem literalValue_type (lit : TypedLiteral) : (literalValue lit).type = lit.valType := by
  cases lit with
  | integer v bits =>
    rw [literalValue, TypedLiteral.valType]
    split <;> rfl
  | bool v => rfl
  | real32 v => rfl
  | real64 v => rfl
  | time ns => rfl

end Operations

/-! ## Expressions -/

theorem callType_some {name : String} {isUserDefined : Bool} {arguments : Option (List ValType)}
    {r : ValType} (h : callType name isUserDefined arguments = some r) :
    isUserDefined = false ∧ ∃ params, hostType name = some ⟨params, [r]⟩ ∧
      arguments = some params := by
  unfold callType at h
  split at h
  · next params result hhost =>
    by_cases hargs : arguments = some params
    · rw [if_pos hargs, Option.some.injEq] at h
      rw [h] at hhost
      exact ⟨rfl, params, hhost, hargs⟩
    · rw [if_neg hargs] at h
      cases h
  · cases h

/-- Calls of imported functions refer to functions of their types. -/
def LinksHosts (funcType : Nat → Option FuncType) (link : String → Bool → Nat) : Prop :=
  ∀ name ft, hostType name = some ft → funcType (link name false) = some ft

section Expressions

variable {ctx : Context} {labels : Nat} {link : String → Bool → Nat}

theorem checkOp_call (labels : Nat) {i : Nat} {ft : FuncType} (h : ctx.funcType i = some ft)
    (s : Operands) :
    checkOp ctx labels (.call i) (s.pushAll ft.params) = some (s.pushAll ft.results) := by
  have hpop : (s.pushAll ft.params).popAll ft.params.reverse = some s :=
    Operands.popAll_known ft.params.reverse s.known s.dead
  rw [checkOp, h, Option.bind_some, hpop]
  rfl

theorem checkSeq_indexProbe (ty : DataType) (s : Operands) :
    checkSeq ctx labels (indexProbe ty) s = some s := by
  cases ty <;> rfl

theorem checkSeq_scaleCode (elementSize : Nat) (s : Operands) :
    checkSeq ctx labels (scaleCode elementSize) ((s.push .i32).push .i32) =
      some (s.push .i32) := rfl

mutual
/-- The code of a typed expression leaves one operand of its type. -/
theorem checkSeq_exprCode (hlink : LinksHosts ctx.funcType link) :
    ∀ (e : TypedExpr) {t : ValType} (s : Operands), e.valueType = some t →
      checkSeq ctx labels (exprCode link e) s = some (s.push t)
  | .literal lit _, t, s, h => by
    rw [TypedExpr.valueType, Option.some.injEq] at h
    rw [← h, ← literalValue_type]
    rfl
  | .variable _ offset ty, t, s, h => by
    rw [TypedExpr.valueType, Option.some.injEq] at h
    rw [← h, exprCode, checkSeq_ops_cons]
    exact (checkSeq_singleton ctx labels _ _).trans (checkOp_loadOp ctx labels ty _ s)
  | .arrayAccess array index elementSize ty, t, s, h => by
    rw [TypedExpr.valueType] at h
    split at h
    · next hparts =>
      rw [Option.some.injEq] at h
      rw [← h, exprCode, checkSeq_append, checkSeq_addressCode hlink array s hparts.1,
        Option.bind_some, checkSeq_append, checkSeq_exprCode hlink index _ hparts.2,
        Option.bind_some, checkSeq_append, checkSeq_indexProbe, Option.bind_some, checkSeq_append,
        checkSeq_scaleCode, Option.bind_some]
      exact (checkSeq_singleton ctx labels _ _).trans (checkOp_loadOp ctx labels ty 0 s)
    · cases h
  | .fieldAccess object _ fieldOffset ty, t, s, h => by
    rw [TypedExpr.valueType] at h
    split at h
    · next hobject =>
      rw [Option.some.injEq] at h
      rw [← h, exprCode, checkSeq_append, checkSeq_addressCode hlink object s hobject,
        Option.bind_some]
      exact (checkSeq_singleton ctx labels _ _).trans (checkOp_loadOp ctx labels ty _ s)
    · cases h
  | .binary left op right _, t, s, h => by
    rw [TypedExpr.valueType] at h
    split at h
    · next hparts =>
      rw [exprCode, checkSeq_append, checkSeq_exprCode hlink left s hparts.1, Option.bind_some,
        checkSeq_append, checkSeq_exprCode hlink right _ hparts.2, Option.bind_some]
      exact (checkSeq_singleton ctx labels _ _).trans (binaryOp_combines h ctx labels s)
    · cases h
  | .unary op operand _, t, s, h => by
    rw [TypedExpr.valueType] at h
    split at h
    · next hparts =>
      rw [Option.some.injEq] at h
      rw [← h, exprCode, checkSeq_append, checkSeq_exprCode hlink operand s hparts.1,
        Option.bind_some]
      exact unaryOps_accepts ctx labels hparts.2 s
    · cases h
  | .call name arguments isUserDefined _, t, s, h => by
    rw [TypedExpr.valueType] at h
    obtain ⟨rfl, params, hhost, hargs⟩ := callType_some h
    rw [exprCode, checkSeq_append, checkSeq_argumentsCode hlink arguments s hargs, Option.bind_some]
    exact (checkSeq_singleton ctx labels _ _).trans (checkOp_call labels (hlink name _ hhost) s)
/-- The code of an address leaves one `i32`. -/
theorem checkSeq_addressCode (hlink : LinksHosts ctx.funcType link) :
    ∀ (e : TypedExpr) (s : Operands), e.addressTyped = true →
      checkSeq ctx labels (addressCode link e) s = some (s.push .i32)
  | .variable .., _, _ => rfl
  | .arrayAccess array index elementSize _, s, h => by
    rw [TypedExpr.addressTyped, Bool.and_eq_true, beq_iff_eq] at h
    rw [addressCode, checkSeq_append, checkSeq_addressCode hlink array s h.1, Option.bind_some,
      checkSeq_append, checkSeq_exprCode hlink index _ h.2, Option.bind_some, checkSeq_append,
      checkSeq_indexProbe, Option.bind_some, checkSeq_scaleCode]
  | .literal .., _, _ | .fieldAccess .., _, _ | .binary .., _, _ | .unary .., _, _
  | .call .., _, _ => rfl
/-- The code of call arguments leaves one operand for each. -/
theorem checkSeq_argumentsCode (hlink : LinksHosts ctx.funcType link) :
    ∀ (es : List TypedExpr) {ts : List ValType} (s : Operands), argumentTypes es = some ts →
      checkSeq ctx labels (argumentsCode link es) s = some (s.pushAll ts)
  | [], ts, s, h => by
    rw [argumentTypes, Option.some.injEq] at h
    rw [← h]
    rfl
  | e :: es, ts, s, h => by
    rw [argumentTypes] at h
    split at h
    · next t ts' he hes =>
      rw [Option.some.injEq] at h
      have hpush : s.pushAll (t :: ts') = (s.push t).pushAll ts' := by
        simp [Operands.pushAll, Operands.push]
      rw [argumentsCode, checkSeq_append, checkSeq_exprCode hlink e s he, Option.bind_some,
        checkSeq_argumentsCode hlink es _ hes, ← h, hpush]
    · cases h
end

end Expressions

/-! ## Statements -/

/-- The code leaves the operand stack of its construct as empty as it finds it. -/
def Neutral (ctx : Context) (labels : Nat) (code : PlcCode) : Prop :=
  ∀ dead, ∃ dead', checkSeq ctx labels code ⟨[], dead⟩ = some ⟨[], dead'⟩

section Neutral

variable {ctx : Context} {labels : Nat} {a b thn : PlcCode}

theorem Neutral.nil : Neutral ctx labels [] := fun dead => ⟨dead, rfl⟩

theorem Neutral.append (ha : Neutral ctx labels a) (hb : Neutral ctx labels b) :
    Neutral ctx labels (a ++ b) := by
  intro dead
  obtain ⟨dead', hfirst⟩ := ha dead
  obtain ⟨dead'', hsecond⟩ := hb dead'
  exact ⟨dead'', by rw [checkSeq_append, hfirst, Option.bind_some, hsecond]⟩

theorem Neutral.of_eq (h : ∀ dead, checkSeq ctx labels a ⟨[], dead⟩ = some ⟨[], dead⟩) :
    Neutral ctx labels a := fun dead => ⟨dead, h dead⟩

theorem Neutral.closed (h : Neutral ctx labels a) :
    Operands.closed (checkSeq ctx labels a .empty) = true := by
  obtain ⟨dead', ha⟩ := h false
  rw [show Operands.empty = ⟨[], false⟩ from rfl, ha]
  rfl

theorem Neutral.checkCode_block (h : Neutral ctx (labels + 1) a) (s : Operands) :
    checkCode ctx labels (.block a) s = some s := by
  rw [checkCode, if_pos h.closed]

theorem Neutral.checkCode_loop (h : Neutral ctx (labels + 1) a) (s : Operands) :
    checkCode ctx labels (.loop a) s = some s := by
  rw [checkCode, if_pos h.closed]

/-- A loop with a block around it. -/
theorem Neutral.looped (h : Neutral ctx (labels + 2) a) :
    Neutral ctx labels [.block [.loop a]] := by
  have hloop : Neutral ctx (labels + 1) [.loop a] :=
    .of_eq fun dead => (checkSeq_singleton _ _ _ _).trans (h.checkCode_loop _)
  exact .of_eq fun dead => (checkSeq_singleton _ _ _ _).trans (hloop.checkCode_block _)

/-- A conditional takes its condition. -/
theorem Neutral.checkCode_cond {els : Option PlcCode} (hthn : Neutral ctx (labels + 1) thn)
    (hels : ∀ code, els = some code → Neutral ctx (labels + 1) code) (s : Operands) :
    checkCode ctx labels (condCode thn els) (s.push .i32) = some s := by
  have hpop : (s.push .i32).pop .i32 = some s := rfl
  cases els with
  | none => rw [condCode, checkCode, hpop, Option.bind_some, if_pos hthn.closed]
  | some code =>
    have hboth : (Operands.closed (checkSeq ctx (labels + 1) thn .empty) &&
        Operands.closed (checkSeq ctx (labels + 1) code .empty)) = true := by
      rw [hthn.closed, (hels code rfl).closed]
      rfl
    rw [condCode, checkCode, hpop, Option.bind_some, if_pos hboth]

/-- Code that leaves an `i32` and a conditional on it. -/
theorem Neutral.cond {els : Option PlcCode}
    (hcondition : ∀ s, checkSeq ctx labels a s = some (s.push .i32))
    (hthn : Neutral ctx (labels + 1) thn)
    (hels : ∀ code, els = some code → Neutral ctx (labels + 1) code) :
    Neutral ctx labels (a ++ [condCode thn els]) := by
  apply Neutral.of_eq
  intro dead
  rw [checkSeq_append, hcondition, Option.bind_some, checkSeq_singleton,
    Neutral.checkCode_cond hthn hels]

end Neutral

section Statements

variable {ctx : Context} {link : String → Bool → Nat} {labels : Nat}

theorem TypedExpr.isWord_iff {e : TypedExpr} : e.isWord = true ↔ e.valueType = some .i32 :=
  beq_iff_eq

theorem checkSeq_isWord (hlink : LinksHosts ctx.funcType link) {e : TypedExpr}
    (h : e.isWord = true) (s : Operands) :
    checkSeq ctx labels (exprCode link e) s = some (s.push .i32) :=
  checkSeq_exprCode hlink e s (TypedExpr.isWord_iff.1 h)

theorem checkSeq_caseTest {sel : Nat} (hsel : ctx.locals[sel]? = some .i32) (v : Int)
    (s : Operands) : checkSeq ctx labels (ops (caseTestOps sel v)) s = some (s.push .i32) := by
  have hget : checkOp ctx labels (.localGet sel) s = some (s.push .i32) := by
    rw [checkOp, hsel]
    rfl
  rw [caseTestOps, checkSeq_ops_cons, hget]
  rfl

theorem checkSeq_caseCondition {sel : Nat} (hsel : ctx.locals[sel]? = some .i32) (v : Int)
    (vs : List Int) (s : Operands) :
    checkSeq ctx labels (ops (caseConditionOps sel (v :: vs))) s = some (s.push .i32) := by
  have hops : ∀ a b : List Op, ops (a ++ b) = ops a ++ ops b := fun a b => List.map_append
  have hrest : ∀ ws : List Int, checkSeq ctx labels
      (ops (ws.flatMap fun w => caseTestOps sel w ++ [.i32Bin .or])) (s.push .i32) =
        some (s.push .i32) := by
    intro ws
    induction ws with
    | nil => rfl
    | cons w ws ih =>
      rw [List.flatMap_cons, hops, hops, checkSeq_append, checkSeq_append, checkSeq_caseTest hsel,
        Option.bind_some]
      exact ih
  rw [caseConditionOps, hops, checkSeq_append, checkSeq_caseTest hsel, Option.bind_some, hrest]

/-- The code of a FOR around typed expressions and a neutral body. -/
theorem neutral_forCode {offset : Nat} {start stop step body : PlcCode}
    (hstart : ∀ s, checkSeq ctx labels start s = some (s.push .i32))
    (hstop : ∀ s, checkSeq ctx (labels + 2) stop s = some (s.push .i32))
    (hstep : ∀ s, checkSeq ctx (labels + 2) step s = some (s.push .i32))
    (hbody : Neutral ctx (labels + 2) body) :
    Neutral ctx labels (forCode offset start stop step body) := by
  have hload : ∀ (n : Nat) (s : Operands),
      checkSeq ctx n (ops [.const (.i32 0), .load .i32 offset]) s = some (s.push .i32) :=
    fun _ _ => rfl
  -- the jump out of the loop is to the block around it
  have htest : ∀ s : Operands,
      checkSeq ctx (labels + 2) (ops [.i32Rel .gtS, .brIf 1]) ((s.push .i32).push .i32) =
        some s := by
    intro s
    have hlabel : 1 < labels + 2 := by omega
    rw [checkSeq_ops_cons]
    show (checkOp ctx (labels + 2) (.brIf 1) (s.push .i32)).bind _ = _
    rw [checkOp, if_pos hlabel]
    rfl
  -- the last jump is back to the start of the loop
  have hstore : ∀ s : Operands, checkSeq ctx (labels + 2)
      (ops [.i32Bin .add, .store .i32 offset, .br 0])
        (((s.push .i32).push .i32).push .i32) = some .afterBranch := by
    intro s
    have hlabel : 0 < labels + 2 := by omega
    rw [checkSeq_ops_cons]
    show (checkOp ctx (labels + 2) (.br 0) s).bind _ = _
    rw [checkOp, if_pos hlabel]
    rfl
  have hloop : Neutral ctx (labels + 2)
      (ops [.const (.i32 0), .load .i32 offset] ++ (stop ++ (ops [.i32Rel .gtS, .brIf 1] ++ (body ++
        (ops [.const (.i32 0), .const (.i32 0), .load .i32 offset] ++ (step ++
          ops [.i32Bin .add, .store .i32 offset, .br 0])))))) := by
    intro dead
    obtain ⟨dead', hdead⟩ := hbody dead
    refine ⟨true, ?_⟩
    rw [checkSeq_append, hload, Option.bind_some, checkSeq_append, hstop, Option.bind_some,
      checkSeq_append, htest, Option.bind_some, checkSeq_append, hdead, Option.bind_some,
      checkSeq_append]
    show (checkSeq ctx (labels + 2) _ ((Operands.push ⟨[], dead'⟩ .i32).push .i32)) = _
    rw [checkSeq_append, hstep, Option.bind_some, hstore]
    rfl
  intro dead
  obtain ⟨dead', hdead⟩ := hloop.looped dead
  refine ⟨dead', ?_⟩
  rw [forCode, checkSeq_append]
  show (checkSeq ctx labels _ (Operands.push ⟨[], dead⟩ .i32)) = _
  rw [checkSeq_append, hstart, Option.bind_some, checkSeq_append]
  exact hdead

theorem neutral_whileCode {condition body : PlcCode}
    (hcondition : ∀ s, checkSeq ctx (labels + 2) condition s = some (s.push .i32))
    (hbody : Neutral ctx (labels + 2) body) : Neutral ctx labels (whileCode condition body) := by
  apply Neutral.looped
  intro dead
  obtain ⟨dead', hdead⟩ := hbody dead
  have hlabel : 1 < labels + 2 := by omega
  have hzero : 0 < labels + 2 := by omega
  refine ⟨true, ?_⟩
  rw [checkSeq_append, hcondition, Option.bind_some, checkSeq_append, checkSeq_ops_cons]
  show ((checkOp ctx (labels + 2) (.brIf 1) (Operands.push ⟨[], dead⟩ .i32)).bind _).bind _ = _
  rw [checkOp, if_pos hlabel]
  show checkSeq ctx (labels + 2) (body ++ ops [.br 0]) ⟨[], dead⟩ = _
  rw [checkSeq_append, hdead, Option.bind_some, checkSeq_ops_cons, checkOp, if_pos hzero]
  rfl

theorem neutral_repeatCode {body untilCond : PlcCode} (hbody : Neutral ctx (labels + 2) body)
    (huntil : ∀ s, checkSeq ctx (labels + 2) untilCond s = some (s.push .i32)) :
    Neutral ctx labels (repeatCode body untilCond) := by
  apply Neutral.looped
  intro dead
  obtain ⟨dead', hdead⟩ := hbody dead
  have hlabel : 1 < labels + 2 := by omega
  have hzero : 0 < labels + 2 := by omega
  refine ⟨true, ?_⟩
  rw [checkSeq_append, hdead, Option.bind_some, checkSeq_append, huntil, Option.bind_some,
    checkSeq_ops_cons, checkOp, if_pos hlabel]
  show checkSeq ctx (labels + 2) (ops [.br 0]) ⟨[], dead'⟩ = _
  rw [checkSeq_ops_cons, checkOp, if_pos hzero]
  rfl

end Statements

/-! ## Statement lists -/

section Lists

variable {ctx : Context} {link : String → Bool → Nat} {n : Nat}

theorem neutral_jump {labels depth : Nat} (h : depth < labels) :
    Neutral ctx labels (ops [.br depth]) := by
  intro dead
  refine ⟨true, ?_⟩
  rw [checkSeq_ops_cons, checkOp, if_pos h]
  rfl

theorem neutral_return (hlink : LinksHosts ctx.funcType link) {labels : Nat} {e : TypedExpr}
    (h : e.valueType.isSome = true) : Neutral ctx labels (exprCode link e ++ ops [.ret]) := by
  intro dead
  obtain ⟨t, ht⟩ := Option.isSome_iff_exists.1 h
  exact ⟨true, by rw [checkSeq_append, checkSeq_exprCode hlink e _ ht]; rfl⟩

theorem neutral_assignment (hlink : LinksHosts ctx.funcType link) {labels : Nat}
    {target value : TypedExpr} (htarget : target.addressTyped = true)
    (hvalue : value.valueType = some target.ty.valType) :
    Neutral ctx labels (addressCode link target ++ (exprCode link value ++
      ops [storeOp target.ty])) := by
  apply Neutral.of_eq
  intro dead
  rw [checkSeq_append, checkSeq_addressCode hlink target _ htarget, Option.bind_some,
    checkSeq_append, checkSeq_exprCode hlink value _ hvalue, Option.bind_some]
  exact (checkSeq_singleton _ _ _ _).trans (checkOp_storeOp ctx labels target.ty _)

theorem neutral_call (hlink : LinksHosts ctx.funcType link) {labels : Nat} {name : String}
    {isUserDefined : Bool} {arguments : List TypedExpr}
    (h : (callType name isUserDefined (argumentTypes arguments)).isSome = true) :
    Neutral ctx labels (argumentsCode link arguments ++
      ops [.call (link name isUserDefined), .drop]) := by
  obtain ⟨r, hr⟩ := Option.isSome_iff_exists.1 h
  obtain ⟨rfl, params, hhost, hargs⟩ := callType_some hr
  apply Neutral.of_eq
  intro dead
  rw [checkSeq_append, checkSeq_argumentsCode hlink arguments _ hargs, Option.bind_some,
    checkSeq_ops_cons, checkOp_call labels (hlink name _ hhost)]
  rfl

/-- The temporaries of a function. -/
theorem locals_temporary (hlocals : ctx.locals = List.replicate n .i32) {i : Nat} (h : i < n) :
    ctx.locals[i]? = some .i32 := by
  rw [hlocals, List.getElem?_replicate_of_lt h]

/-- The selector of a CASE, kept in the temporary `sel`, before its chain of branches. -/
theorem neutral_case {labels sel : Nat} {selector : PlcCode} {chain : Option PlcCode}
    (hselector : ∀ s, checkSeq ctx labels selector s = some (s.push .i32))
    (hsel : ctx.locals[sel]? = some .i32)
    (hchain : ∀ code, chain = some code → Neutral ctx labels code) :
    Neutral ctx labels (selector ++ (ops [.localSet sel] ++ chain.getD [])) := by
  have hset : Neutral ctx labels (selector ++ ops [.localSet sel]) := by
    apply Neutral.of_eq
    intro dead
    rw [checkSeq_append, hselector, Option.bind_some, checkSeq_ops_cons, checkOp, hsel]
    rfl
  rw [← List.append_assoc]
  apply hset.append
  cases chain with
  | none => exact .nil
  | some code => exact hchain code rfl

mutual
/-- Typed statements are neutral under the labels of their loops. -/
theorem neutral_stmtCode (hlink : LinksHosts ctx.funcType link)
    (hlocals : ctx.locals = List.replicate n .i32) :
    ∀ (stmt : TypedStatement) {labels depth base : Nat}, stmtTyped stmt = true → depth < labels →
      base + stmtLocals stmt ≤ n → Neutral ctx labels (stmtCode link stmt depth base)
  | .assignment target value, labels, depth, base, h, _, _ => by
    rw [stmtTyped, Bool.and_eq_true, beq_iff_eq] at h
    exact neutral_assignment hlink h.1 h.2
  | .ifStmt condition thenBranch elsifBranches none, labels, depth, base, h, hd, hb => by
    simp only [stmtTyped, Bool.and_eq_true] at h
    obtain ⟨hcondition, hthen, helsifs, -⟩ := h
    simp only [stmtLocals] at hb
    apply Neutral.cond (checkSeq_isWord hlink hcondition)
    · exact neutral_stmtsCode hlink hlocals thenBranch hthen (by omega) (by omega)
    · exact neutral_elsifsCode hlink hlocals elsifBranches helsifs (by omega) (by omega)
        fun _ _ _ hcode => by cases hcode
  | .ifStmt condition thenBranch elsifBranches (some stmts), labels, depth, base, h, hd, hb => by
    simp only [stmtTyped, Bool.and_eq_true] at h
    obtain ⟨hcondition, hthen, helsifs, helse⟩ := h
    simp only [stmtLocals] at hb
    apply Neutral.cond (checkSeq_isWord hlink hcondition)
    · exact neutral_stmtsCode hlink hlocals thenBranch hthen (by omega) (by omega)
    · apply neutral_elsifsCode hlink hlocals elsifBranches helsifs (by omega) (by omega)
      intro labels' hd' code hcode
      cases hcode
      exact neutral_stmtsCode hlink hlocals stmts helse hd' (by omega)
  | .forStmt _ _ start stop step body, labels, depth, base, h, hd, hb => by
    simp only [stmtTyped, Bool.and_eq_true] at h
    obtain ⟨hstart, hstop, hbody, hstep⟩ := h
    refine neutral_forCode (checkSeq_isWord hlink hstart) (checkSeq_isWord hlink hstop) ?_
      (neutral_stmtsCode hlink hlocals body hbody (by omega) hb)
    cases step with
    | none => exact fun _ => rfl
    | some e => exact checkSeq_isWord hlink hstep
  | .whileStmt condition body, labels, depth, base, h, hd, hb => by
    rw [stmtTyped, Bool.and_eq_true] at h
    exact neutral_whileCode (checkSeq_isWord hlink h.1)
      (neutral_stmtsCode hlink hlocals body h.2 (by omega) hb)
  | .repeatStmt body untilCond, labels, depth, base, h, hd, hb => by
    rw [stmtTyped, Bool.and_eq_true] at h
    exact neutral_repeatCode (neutral_stmtsCode hlink hlocals body h.1 (by omega) hb)
      (checkSeq_isWord hlink h.2)
  | .caseStmt selector branches none, labels, depth, base, h, hd, hb => by
    simp only [stmtTyped, Bool.and_eq_true] at h
    obtain ⟨hselector, hbranches, -⟩ := h
    simp only [stmtLocals] at hb
    -- the selector lives in the first temporary of the statement
    have hsel : ctx.locals[base]? = some .i32 := locals_temporary hlocals (by omega)
    apply neutral_case (checkSeq_isWord hlink hselector) hsel
    exact neutral_branchesCode hlink hlocals branches hbranches hsel hd (by omega) _
      fun _ _ _ hcode => by cases hcode
  | .caseStmt selector branches (some stmts), labels, depth, base, h, hd, hb => by
    simp only [stmtTyped, Bool.and_eq_true] at h
    obtain ⟨hselector, hbranches, helse⟩ := h
    simp only [stmtLocals] at hb
    have hsel : ctx.locals[base]? = some .i32 := locals_temporary hlocals (by omega)
    apply neutral_case (checkSeq_isWord hlink hselector) hsel
    apply neutral_branchesCode hlink hlocals branches hbranches hsel hd (by omega)
    intro labels' hd' code hcode
    cases hcode
    exact neutral_stmtsCode hlink hlocals stmts helse hd' (by omega)
  | .exitStmt, _, _, _, _, hd, _ => neutral_jump hd
  | .continueStmt, _, _, _, _, hd, _ => neutral_jump (Nat.zero_lt_of_lt hd)
  | .returnStmt none, _, _, _, _, _, _ => fun dead => ⟨true, rfl⟩
  | .returnStmt (some e), _, _, _, h, _, _ => neutral_return hlink h
  | .callStmt name arguments isUserDefined, _, _, _, h, _, _ => neutral_call hlink h
  | .empty, _, _, _, _, _, _ => .nil
theorem neutral_stmtsCode (hlink : LinksHosts ctx.funcType link)
    (hlocals : ctx.locals = List.replicate n .i32) :
    ∀ (stmts : List TypedStatement) {labels depth base : Nat}, stmtsTyped stmts = true →
      depth < labels → base + stmtsLocals stmts ≤ n →
      Neutral ctx labels (stmtsCode link stmts depth base)
  | [], _, _, _, _, _, _ => .nil
  | stmt :: rest, labels, depth, base, h, hd, hb => by
    rw [stmtsTyped, Bool.and_eq_true] at h
    rw [stmtsLocals] at hb
    exact (neutral_stmtCode hlink hlocals stmt h.1 hd (by omega)).append
      (neutral_stmtsCode hlink hlocals rest h.2 hd (by omega))
theorem neutral_elsifsCode (hlink : LinksHosts ctx.funcType link)
    (hlocals : ctx.locals = List.replicate n .i32) :
    ∀ (xs : List (TypedExpr × List TypedStatement)) {labels depth base : Nat},
      elsifsTyped xs = true → depth < labels → base + elsifsLocals xs ≤ n →
      ∀ {els : Option PlcCode},
        (∀ labels', depth < labels' → ∀ code, els = some code → Neutral ctx labels' code) →
        ∀ code, elsifsCode link xs depth base els = some code → Neutral ctx labels code
  | [], labels, _, _, _, hd, _, _, hels => hels labels hd
  | (condition, stmts) :: rest, labels, depth, base, h, hd, hb, els, hels => by
    simp only [elsifsTyped, Bool.and_eq_true] at h
    rw [elsifsLocals] at hb
    intro code hcode
    cases hcode
    exact Neutral.cond (checkSeq_isWord hlink h.1)
      (neutral_stmtsCode hlink hlocals stmts h.2.1 (by omega) (by omega))
      (neutral_elsifsCode hlink hlocals rest h.2.2 (by omega) (by omega) hels)
theorem neutral_branchesCode (hlink : LinksHosts ctx.funcType link)
    (hlocals : ctx.locals = List.replicate n .i32) :
    ∀ (xs : List (List Int × List TypedStatement)) {labels depth base sel : Nat},
      branchesTyped xs = true → ctx.locals[sel]? = some .i32 → depth < labels →
      base + branchesLocals xs ≤ n → ∀ els : Option PlcCode,
        (∀ labels', depth < labels' → ∀ code, els = some code → Neutral ctx labels' code) →
        ∀ code, branchesCode link xs depth base sel els = some code → Neutral ctx labels code
  | [], labels, _, _, _, _, _, hd, _, _, hels => hels labels hd
  | ([], _) :: rest, _, _, _, _, h, hsel, hd, hb, els, hels =>
    neutral_branchesCode hlink hlocals rest h hsel hd hb els hels
  | (v :: vs, stmts) :: rest, labels, depth, base, sel, h, hsel, hd, hb, els, hels => by
    rw [branchesTyped, Bool.and_eq_true] at h
    rw [branchesLocals] at hb
    intro code hcode
    cases hcode
    exact Neutral.cond (checkSeq_caseCondition hsel v vs)
      (neutral_stmtsCode hlink hlocals stmts h.1 (by omega) (by omega))
      (neutral_branchesCode hlink hlocals rest h.2 hsel (by omega) (by omega) els hels)
end

end Lists

/-! ## Calls of typed statements -/

/-- The call is one of a host function with its parameters. -/
def CallSite.typed (site : CallSite) : Bool :=
  (callType site.name site.isUserDefined (argumentTypes site.arguments)).isSome

mutual
theorem exprSites_typed : ∀ (e : TypedExpr), e.valueType.isSome = true →
    ∀ site ∈ exprSites e, site.typed = true
  | .literal .., _ => nofun
  | .variable .., _ => nofun
  | .arrayAccess array index _ _, h => by
    rw [TypedExpr.valueType] at h
    split at h
    · next hparts =>
      exact List.forall_mem_append.2 ⟨addressSites_typed array hparts.1,
        exprSites_typed index (by rw [hparts.2]; rfl)⟩
    · cases h
  | .fieldAccess object _ _ _, h => by
    rw [TypedExpr.valueType] at h
    split at h
    · next hobject => exact addressSites_typed object hobject
    · cases h
  | .binary left _ right _, h => by
    rw [TypedExpr.valueType] at h
    split at h
    · next hparts =>
      exact List.forall_mem_append.2 ⟨exprSites_typed left (by rw [hparts.1]; rfl),
        exprSites_typed right (by rw [hparts.2]; rfl)⟩
    · cases h
  | .unary _ operand _, h => by
    rw [TypedExpr.valueType] at h
    split at h
    · next hparts => exact exprSites_typed operand (by rw [hparts.1]; rfl)
    · cases h
  | .call name arguments isUserDefined _, h => by
    obtain ⟨r, hr⟩ := Option.isSome_iff_exists.1 h
    rw [TypedExpr.valueType] at hr
    obtain ⟨-, params, -, hargs⟩ := callType_some hr
    refine List.forall_mem_append.2 ⟨argumentsSites_typed arguments (by rw [hargs]; rfl), ?_⟩
    intro site hsite
    rw [List.mem_singleton] at hsite
    rw [hsite]
    exact h
theorem addressSites_typed : ∀ (e : TypedExpr), e.addressTyped = true →
    ∀ site ∈ addressSites e, site.typed = true
  | .arrayAccess array index _ _, h => by
    rw [TypedExpr.addressTyped, Bool.and_eq_true, beq_iff_eq] at h
    exact List.forall_mem_append.2 ⟨addressSites_typed array h.1,
      exprSites_typed index (by rw [h.2]; rfl)⟩
  | .literal .., _ | .variable .., _ | .fieldAccess .., _ | .binary .., _ | .unary .., _
  | .call .., _ => nofun
theorem argumentsSites_typed : ∀ (es : List TypedExpr), (argumentTypes es).isSome = true →
    ∀ site ∈ argumentsSites es, site.typed = true
  | [], _ => nofun
  | e :: es, h => by
    rw [argumentTypes] at h
    split at h
    · next t ts he hes =>
      exact List.forall_mem_append.2 ⟨exprSites_typed e (by rw [he]; rfl),
        argumentsSites_typed es (by rw [hes]; rfl)⟩
    · cases h
end

theorem exprSites_word {e : TypedExpr} (h : e.isWord = true) :
    ∀ site ∈ exprSites e, site.typed = true :=
  exprSites_typed e (by rw [TypedExpr.isWord_iff.1 h]; rfl)

mutual
theorem stmtSites_typed : ∀ (stmt : TypedStatement), stmtTyped stmt = true →
    ∀ site ∈ stmtSites stmt, site.typed = true
  | .assignment target value, h => by
    rw [stmtTyped, Bool.and_eq_true, beq_iff_eq] at h
    exact List.forall_mem_append.2 ⟨addressSites_typed target h.1,
      exprSites_typed value (by rw [h.2]; rfl)⟩
  | .ifStmt condition thenBranch elsifBranches none, h => by
    simp only [stmtTyped, Bool.and_eq_true] at h
    simp only [stmtSites, List.forall_mem_append]
    exact ⟨exprSites_word h.1, stmtsSites_typed thenBranch h.2.1,
      elsifsSites_typed elsifBranches h.2.2.1, nofun⟩
  | .ifStmt condition thenBranch elsifBranches (some stmts), h => by
    simp only [stmtTyped, Bool.and_eq_true] at h
    simp only [stmtSites, List.forall_mem_append]
    exact ⟨exprSites_word h.1, stmtsSites_typed thenBranch h.2.1,
      elsifsSites_typed elsifBranches h.2.2.1, stmtsSites_typed stmts h.2.2.2⟩
  | .forStmt _ _ start stop none body, h => by
    simp only [stmtTyped, Bool.and_eq_true] at h
    simp only [stmtSites, List.forall_mem_append]
    exact ⟨exprSites_word h.1, exprSites_word h.2.1, stmtsSites_typed body h.2.2.1, nofun⟩
  | .forStmt _ _ start stop (some e) body, h => by
    simp only [stmtTyped, Bool.and_eq_true] at h
    simp only [stmtSites, List.forall_mem_append]
    exact ⟨exprSites_word h.1, exprSites_word h.2.1, stmtsSites_typed body h.2.2.1,
      exprSites_word h.2.2.2⟩
  | .whileStmt condition body, h => by
    rw [stmtTyped, Bool.and_eq_true] at h
    exact List.forall_mem_append.2 ⟨exprSites_word h.1, stmtsSites_typed body h.2⟩
  | .repeatStmt body untilCond, h => by
    rw [stmtTyped, Bool.and_eq_true] at h
    exact List.forall_mem_append.2 ⟨stmtsSites_typed body h.1, exprSites_word h.2⟩
  | .caseStmt selector branches none, h => by
    simp only [stmtTyped, Bool.and_eq_true] at h
    simp only [stmtSites, List.forall_mem_append]
    exact ⟨exprSites_word h.1, branchesSites_typed branches h.2.1, nofun⟩
  | .caseStmt selector branches (some stmts), h => by
    simp only [stmtTyped, Bool.and_eq_true] at h
    simp only [stmtSites, List.forall_mem_append]
    exact ⟨exprSites_word h.1, branchesSites_typed branches h.2.1, stmtsSites_typed stmts h.2.2⟩
  | .returnStmt none, _ => nofun
  | .returnStmt (some e), h => exprSites_typed e h
  | .callStmt name arguments isUserDefined, h => by
    obtain ⟨r, hr⟩ := Option.isSome_iff_exists.1 h
    obtain ⟨-, params, -, hargs⟩ := callType_some hr
    refine List.forall_mem_append.2 ⟨argumentsSites_typed arguments (by rw [hargs]; rfl), ?_⟩
    intro site hsite
    rw [List.mem_singleton] at hsite
    rw [hsite]
    exact h
  | .exitStmt, _ | .continueStmt, _ | .empty, _ => nofun
theorem stmtsSites_typed : ∀ (stmts : List TypedStatement), stmtsTyped stmts = true →
    ∀ site ∈ stmtsSites stmts, site.typed = true
  | [], _ => nofun
  | stmt :: rest, h => by
    rw [stmtsTyped, Bool.and_eq_true] at h
    exact List.forall_mem_append.2 ⟨stmtSites_typed stmt h.1, stmtsSites_typed rest h.2⟩
theorem elsifsSites_typed : ∀ (xs : List (TypedExpr × List TypedStatement)),
    elsifsTyped xs = true → ∀ site ∈ elsifsSites xs, site.typed = true
  | [], _ => nofun
  | (condition, stmts) :: rest, h => by
    simp only [elsifsTyped, Bool.and_eq_true] at h
    simp only [elsifsSites, List.forall_mem_append]
    exact ⟨exprSites_word h.1, stmtsSites_typed stmts h.2.1, elsifsSites_typed rest h.2.2⟩
theorem branchesSites_typed : ∀ (xs : List (List Int × List TypedStatement)),
    branchesTyped xs = true → ∀ site ∈ branchesSites xs, site.typed = true
  | [], _ => nofun
  | ([], _) :: rest, h => branchesSites_typed rest h
  | (v :: vs, stmts) :: rest, h => by
    rw [branchesTyped, Bool.and_eq_true] at h
    exact List.forall_mem_append.2 ⟨stmtsSites_typed stmts h.1, branchesSites_typed rest h.2⟩
end

/-- The function that a call site names. -/
def CallSite.callee (site : CallSite) : String × Bool := (site.name, site.isUserDefined)

mutual
theorem exprCalls_eq : ∀ e : TypedExpr, exprCalls e = (exprSites e).map CallSite.callee
  | .literal .. => rfl
  | .variable .. => rfl
  | .arrayAccess array index _ _ => by
    rw [exprCalls, exprSites, addressCalls_eq array, exprCalls_eq index, List.map_append]
  | .fieldAccess object _ _ _ => addressCalls_eq object
  | .binary left _ right _ => by
    rw [exprCalls, exprSites, exprCalls_eq left, exprCalls_eq right, List.map_append]
  | .unary _ operand _ => exprCalls_eq operand
  | .call name arguments isUserDefined _ => by
    rw [exprCalls, exprSites, argumentsCalls_eq arguments, List.map_append]
    rfl
theorem addressCalls_eq : ∀ e : TypedExpr, addressCalls e = (addressSites e).map CallSite.callee
  | .arrayAccess array index _ _ => by
    rw [addressCalls, addressSites, addressCalls_eq array, exprCalls_eq index, List.map_append]
  | .literal .. | .variable .. | .fieldAccess .. | .binary .. | .unary .. | .call .. => rfl
theorem argumentsCalls_eq : ∀ es : List TypedExpr,
    argumentsCalls es = (argumentsSites es).map CallSite.callee
  | [] => rfl
  | e :: es => by
    rw [argumentsCalls, argumentsSites, exprCalls_eq e, argumentsCalls_eq es, List.map_append]
end

mutual
theorem stmtCalls_eq : ∀ stmt : TypedStatement,
    stmtCalls stmt = (stmtSites stmt).map CallSite.callee
  | .assignment target value => by
    rw [stmtCalls, stmtSites, addressCalls_eq target, exprCalls_eq value, List.map_append]
  | .ifStmt condition thenBranch elsifBranches none => by
    simp only [stmtCalls, stmtSites, List.map_append, exprCalls_eq condition,
      stmtsCalls_eq thenBranch, elsifsCalls_eq elsifBranches, List.map_nil]
  | .ifStmt condition thenBranch elsifBranches (some stmts) => by
    simp only [stmtCalls, stmtSites, List.map_append, exprCalls_eq condition,
      stmtsCalls_eq thenBranch, elsifsCalls_eq elsifBranches, stmtsCalls_eq stmts]
  | .forStmt _ _ start stop none body => by
    simp only [stmtCalls, stmtSites, List.map_append, exprCalls_eq start, exprCalls_eq stop,
      stmtsCalls_eq body, List.map_nil]
  | .forStmt _ _ start stop (some e) body => by
    simp only [stmtCalls, stmtSites, List.map_append, exprCalls_eq start, exprCalls_eq stop,
      stmtsCalls_eq body, exprCalls_eq e]
  | .whileStmt condition body => by
    rw [stmtCalls, stmtSites, exprCalls_eq condition, stmtsCalls_eq body, List.map_append]
  | .repeatStmt body untilCond => by
    rw [stmtCalls, stmtSites, exprCalls_eq untilCond, stmtsCalls_eq body, List.map_append]
  | .caseStmt selector branches none => by
    simp only [stmtCalls, stmtSites, List.map_append, exprCalls_eq selector,
      branchesCalls_eq branches, List.map_nil]
  | .caseStmt selector branches (some stmts) => by
    simp only [stmtCalls, stmtSites, List.map_append, exprCalls_eq selector,
      branchesCalls_eq branches, stmtsCalls_eq stmts]
  | .returnStmt none => rfl
  | .returnStmt (some e) => exprCalls_eq e
  | .callStmt name arguments isUserDefined => by
    rw [stmtCalls, stmtSites, argumentsCalls_eq arguments, List.map_append]
    rfl
  | .exitStmt | .continueStmt | .empty => rfl
theorem stmtsCalls_eq : ∀ stmts : List TypedStatement,
    stmtsCalls stmts = (stmtsSites stmts).map CallSite.callee
  | [] => rfl
  | stmt :: rest => by
    rw [stmtsCalls, stmtsSites, stmtCalls_eq stmt, stmtsCalls_eq rest, List.map_append]
theorem elsifsCalls_eq : ∀ xs : List (TypedExpr × List TypedStatement),
    elsifsCalls xs = (elsifsSites xs).map CallSite.callee
  | [] => rfl
  | (condition, stmts) :: rest => by
    simp only [elsifsCalls, elsifsSites, List.map_append, exprCalls_eq condition,
      stmtsCalls_eq stmts, elsifsCalls_eq rest]
theorem branchesCalls_eq : ∀ xs : List (List Int × List TypedStatement),
    branchesCalls xs = (branchesSites xs).map CallSite.callee
  | [] => rfl
  | ([], _) :: rest => branchesCalls_eq rest
  | (_ :: _, stmts) :: rest => by
    rw [branchesCalls, branchesSites, stmtsCalls_eq stmts, branchesCalls_eq rest, List.map_append]
end

/-! ## Modules -/

section Modules

variable (typed : TypedUnit)

/-- Calls of host functions resolve to the imported function. -/
theorem resolve_host {name : String} {ft : FuncType} (h : hostType name = some ft) :
    ∃ i, typed.emitter.resolve name false = .ok i ∧ i < importHostFunctions.length ∧
      typed.module.funcType i = some ft := by
  rw [hostType, Option.bind_eq_some_iff] at h
  obtain ⟨imported, hfind, htype⟩ := h
  have hname : imported.name = name := by simpa using List.find?_some hfind
  have hmem := List.mem_of_find?_eq_some hfind
  rw [← hname]
  simp only [importHostFunctions, List.mem_cons, List.not_mem_nil, or_false] at hmem
  rcases hmem with rfl | rfl | rfl | rfl | rfl
  · exact ⟨0, rfl, by decide, htype⟩
  · exact ⟨1, rfl, by decide, htype⟩
  · exact ⟨2, rfl, by decide, htype⟩
  · exact ⟨3, rfl, by decide, htype⟩
  · exact ⟨4, rfl, by decide, htype⟩

theorem linksHosts : LinksHosts typed.module.funcType typed.emitter.link := by
  intro name ft h
  obtain ⟨i, hresolve, -, htype⟩ := resolve_host typed h
  rw [WasmEmitter.link, hresolve]
  exact htype

theorem CallSite.typed_iff {site : CallSite} (h : site.typed = true) :
    site.isUserDefined = false ∧ ∃ params r, hostType site.name = some ⟨params, [r]⟩ ∧
      argumentTypes site.arguments = some params := by
  obtain ⟨r, hr⟩ := Option.isSome_iff_exists.1 h
  obtain ⟨huser, params, hhost, hargs⟩ := callType_some hr
  exact ⟨huser, params, r, hhost, hargs⟩

theorem CallSite.matches_of_typed {site : CallSite} (h : site.typed = true) :
    site.Matches typed.module typed.emitter.link := by
  obtain ⟨huser, params, r, hhost, hargs⟩ := CallSite.typed_iff h
  refine ⟨⟨params, [r]⟩, ?_, ?_⟩
  · rw [huser]
    exact linksHosts typed _ _ hhost
  · rw [checkSeq_argumentsCode (linksHosts typed) site.arguments _ hargs]
    simp [Operands.pushAll, Operands.empty]

variable {typed}

/-- Every call of a typed unit resolves. -/
theorem TypedUnit.Typed.emits (h : typed.Typed) : emit (lower typed) = .ok typed.module := by
  have hcalls : typed.emitter.resolveAll typed.calls = .ok () := by
    rw [WasmEmitter.resolveAll_ok_iff]
    intro c hc
    obtain ⟨pou, hpou, hmem⟩ := List.mem_flatMap.1 hc
    rw [stmtsCalls_eq, List.mem_map] at hmem
    obtain ⟨site, hsite, rfl⟩ := hmem
    have hsite := stmtsSites_typed pou.body (h pou hpou) site hsite
    obtain ⟨huser, params, r, hhost, -⟩ := CallSite.typed_iff hsite
    obtain ⟨i, hresolve, -, -⟩ := resolve_host typed hhost
    exact ⟨i, by rw [CallSite.callee, huser]; exact hresolve⟩
  rw [emit_lower, hcalls]
  rfl

theorem stepExports_names : ∀ (pous : List TypedPou) (i : Nat),
    (stepExports pous i).map (·.name) = List.replicate (pous.countP TypedPou.isStep) "step"
  | [], _ => rfl
  | pou :: rest, i => by
    rw [stepExports, List.countP_cons]
    cases pou.isStep with
    | true => simpa [List.replicate_succ] using stepExports_names rest (i + 1)
    | false => simpa using stepExports_names rest (i + 1)

/-- The exported names are distinct exactly with at most one step function. -/
theorem exports_nodup_iff : (typed.module.exports.map (·.name)).Nodup ↔
    typed.units.countP TypedPou.isStep ≤ 1 := by
  rw [TypedUnit.module, List.map_append, stepExports_names, List.nodup_append, List.nodup_replicate]
  have hmemory : ∀ a ∈ List.replicate (typed.units.countP TypedPou.isStep) "step",
      ∀ b ∈ [Export.mk "memory" .memory 0].map (·.name), a ≠ b := by
    intro a ha b hb
    rw [List.eq_of_mem_replicate ha, List.mem_singleton.1 hb]
    decide
  exact ⟨fun h => h.1, fun h => ⟨h, List.nodup_singleton _, hmemory⟩⟩

theorem stepExports_index : ∀ (pous : List TypedPou) (i : Nat), ∀ e ∈ stepExports pous i,
    e.kind = .func ∧ e.index < i + pous.length
  | [], _ => nofun
  | pou :: rest, i => by
    have hrest : ∀ e ∈ stepExports rest (i + 1), e.kind = .func ∧
        e.index < i + (pou :: rest).length := by
      intro e he
      obtain ⟨hkind, hindex⟩ := stepExports_index rest (i + 1) e he
      rw [List.length_cons]
      exact ⟨hkind, by omega⟩
    rw [stepExports]
    cases pou.isStep with
    | true =>
      intro e he
      rcases List.mem_cons.1 he with rfl | he
      · exact ⟨rfl, by rw [List.length_cons]; dsimp only; omega⟩
      · exact hrest e he
    | false => exact hrest

theorem TypedUnit.Typed.checkFunc (h : typed.Typed) :
    ∀ f ∈ typed.module.funcs, typed.module.checkFunc f = true := by
  intro f hf
  obtain ⟨pou, hpou, rfl⟩ := List.mem_map.1 hf
  have htype : typed.module.types[(pou.func typed.emitter.link).typeIndex]? = some ⟨[], []⟩ := rfl
  have hneutral : Neutral ⟨List.replicate (stmtsLocals pou.body) .i32, typed.module.funcType⟩ 1
      (pou.code typed.emitter.link) :=
    neutral_stmtsCode (linksHosts typed) rfl pou.body (h pou hpou) Nat.zero_lt_one
      (Nat.le_of_eq (Nat.zero_add _))
  obtain ⟨dead, hdead⟩ := hneutral false
  rw [checkFunc_flatten htype rfl, checkBody]
  show Operands.closed ((checkSeq _ 1 (pou.code typed.emitter.link) ⟨[], false⟩).bind _) = true
  rw [List.nil_append]
  show Operands.closed ((checkSeq ⟨List.replicate (stmtsLocals pou.body) .i32, _⟩ 1 _ _).bind _) =
    true
  rw [hdead]
  rfl

/-- The module of typed statements is valid exactly with at most one step function. -/
theorem TypedUnit.Typed.valid_iff (h : typed.Typed) :
    typed.module.Valid ↔ typed.units.countP TypedPou.isStep ≤ 1 := by
  constructor
  · intro hvalid
    exact exports_nodup_iff.1 hvalid.distinct
  · intro hstep
    have himports : ∀ i ∈ importHostFunctions, i.typeIndex < defineTypes.length := by decide
    refine ⟨himports, h.checkFunc, rfl, ?_, exports_nodup_iff.2 hstep⟩
    intro e he
    rcases List.mem_append.1 he with he | he
    · obtain ⟨hkind, hindex⟩ := stepExports_index _ _ e he
      rw [Module.checkExport, hkind]
      simpa [Module.typeIndices, TypedUnit.module] using hindex
    · rw [List.mem_singleton] at he
      rw [he]
      rfl

/-- A unit of typed statements becomes a valid module, in which every call pushes what its function
takes, exactly if it has at most one step function. -/
theorem typeSound_iff (h : typed.Typed) :
    typed.TypeSound ↔ typed.units.countP TypedPou.isStep ≤ 1 := by
  rw [← h.valid_iff]
  constructor
  · rintro ⟨m, hm, hvalid, -⟩
    rw [emit_lower_ok hm] at hvalid
    exact hvalid
  · intro hvalid
    refine ⟨typed.module, h.emits, hvalid, ?_⟩
    intro pou hpou site hsite
    exact CallSite.matches_of_typed typed (stmtsSites_typed pou.body (h pou hpou) site hsite)

end Modules

/-- `PROGRAM Main VAR x : INT; END_VAR` with the given statements. -/
def intProgram (body : List Statement) : CompilationUnit :=
  ⟨[.program ⟨"Main", [⟨.var, false, [⟨"x", .int, none⟩]⟩], body⟩]⟩

theorem typeSound_increment : ∃ typed,
    check .debug (intProgram [.assignment (.variable "x")
      (.binary (.variable "x") .add (.literal (.integer 1)))]) = .ok typed ∧
    typed.Typed ∧ typed.TypeSound := by
  refine ⟨_, rfl, ?_, ?_⟩
  · unfold TypedUnit.Typed
    decide
  · exact (typeSound_iff (by unfold TypedUnit.Typed; decide)).2 (by decide)

theorem typeSound_fails : ¬ ∀ (b : Build) (ast : CompilationUnit) (typed : TypedUnit),
    check b ast = .ok typed → typed.TypeSound := by
  intro h
  obtain ⟨m, hm, hvalid, -⟩ := h .debug
    (intProgram [.callStmt "write_do" [(none, .literal (.integer 1)),
      (none, .literal (.integer 1))]])
    _ rfl
  have hfuncs := hvalid.funcs
  rw [emit_lower_ok hm] at hfuncs
  revert hfuncs
  decide

end VirtualPlc.Compiler
