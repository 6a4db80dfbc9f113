import VirtualPlc.Compiler.TypeSoundness
import VirtualPlc.Wasm.Operands

/-!
# Stores of the generated code

Which stores of compiled code can reach the reserved bytes below `0x100`. A program of a compilation
unit is run with these bytes guarded and with observations that stop it when an index leaves the
declared bounds of its array. `isolated_of_clear` shows that no run stops at a guarded byte if every
assigned place is a variable or an element with its whole range of addresses above the reserved
bytes, and if the code that computes an assigned place and value leaves exactly its own operands.
-/

set_option autoImplicit false

namespace VirtualPlc.Compiler

open VirtualPlc.Word VirtualPlc.Wasm VirtualPlc.Control

/-! ## Observed programs -/

/-- The observation of an index: it stops the run outside the declared bounds. -/
def outOfBounds (bounds : Bounds) (s : State) : Option Fault :=
  match s.stack with
  | .i32 x :: _ =>
    if bounds.lower ≤ x.toInt ∧ x.toInt ≤ bounds.upper then none else some .observed
  | _ => some .observed

/-- The program of a compilation unit with its array indices observed and the reserved bytes
guarded. -/
def TypedUnit.program (typed : TypedUnit) (float : FloatOps) (hosts : List HostFunction) :
    Instance Bounds where
  float := float
  hosts := hosts
  funcType := typed.module.funcType
  bodies := typed.units.map fun pou =>
    ⟨List.replicate (stmtsLocals pou.body) .i32, pou.code typed.emitter.link⟩
  guard := fun a => decide (a < reservedBytes)
  probe := outOfBounds

/-- No execution with all indices within their declared bounds stores into the reserved bytes, other
than in a host function. -/
def TypedUnit.Isolated (typed : TypedUnit) : Prop :=
  ∀ (float : FloatOps) (hosts : List HostFunction), hosts.length = importHostFunctions.length →
    ∀ (n d i : Nat) (args : List Value) (mem : Memory),
      (typed.program float hosts).call n d i args mem ≠ some (.error .guarded)

/-- The observed program has the bodies of the emitted module. -/
theorem program_bodies (typed : TypedUnit) (float : FloatOps) (hosts : List HostFunction) :
    typed.module.bodies =
      some ((typed.program float hosts).bodies.map fun b => Body.mk b.locals (strip b.code)) := by
  rw [module_bodies, TypedUnit.program, List.map_map]
  rfl

/-- A body of the observed program runs like the one that is emitted unless an index out of its
declared bounds stops it. -/
theorem body_agrees (typed : TypedUnit) {env : Env Bounds} (hprobe : env.probe = outOfBounds)
    (pou : TypedPou) (n : Nat) (s : State) :
    (execSeq (machine env) n (pou.code typed.emitter.link) s).AgreesUnless .observed
      (execSeq (machine env) n (strip (pou.code typed.emitter.link)) s) := by
  apply execSeq_agrees_strip
  intro bounds s
  show env.probe bounds s = _ ∨ env.probe bounds s = _
  rw [hprobe, outOfBounds]
  split
  · split
    · exact .inr rfl
    · exact .inl rfl
  · exact .inl rfl

/-! ## Expressions that leave one operand -/

/-- A call with `count` arguments takes them all and leaves one result. -/
def callSingle (name : String) (isUserDefined : Bool) (count : Nat) : Bool :=
  match isUserDefined, hostType name with
  | false, some ⟨params, [_]⟩ => params.length == count
  | _, _ => false

mutual
/-- The code of an expression leaves one operand. -/
def TypedExpr.single : TypedExpr → Bool
  | .literal .. | .variable .. => true
  | .arrayAccess array index _ _ => array.addressSingle && index.single
  | .fieldAccess object _ _ _ => object.addressSingle
  -- `**` leaves both its operands under another constant
  | .binary left op right _ => op != .pow && (left.single && right.single)
  | .unary _ operand _ => operand.single
  | .call name arguments isUserDefined _ =>
    callSingle name isUserDefined arguments.length && argumentsSingle arguments
/-- The code of the address of an expression leaves one operand. -/
def TypedExpr.addressSingle : TypedExpr → Bool
  | .arrayAccess array index _ _ => array.addressSingle && index.single
  | .literal .. | .variable .. | .fieldAccess .. | .binary .. | .unary .. | .call .. => true
/-- The code of each argument leaves one operand. -/
def argumentsSingle : List TypedExpr → Bool
  | [] => true
  | e :: es => e.single && argumentsSingle es
end

/-! ## Clear statements -/

/-- Lowest and highest address of an assigned place, over all indices within the declared bounds;
`none` for a place that is no variable and no element of one. -/
def TypedExpr.extent : TypedExpr → Option (Int × Int)
  | .variable _ offset _ => some (offset, offset)
  | .arrayAccess array _ elementSize _ =>
    match array.extent, array.ty with
    | some (low, high), .array lower upper _ =>
      some (low + lower * elementSize, high + upper * elementSize)
    | _, _ => none
  | .literal .. | .fieldAccess .. | .binary .. | .unary .. | .call .. => none

/-- The place lies above the reserved bytes, within 32-bit addresses. -/
def TypedExpr.clear (target : TypedExpr) : Bool :=
  match target.extent with
  | some (low, high) => decide ((reservedBytes : Int) ≤ low ∧ high < 2 ^ 32)
  | none => false

mutual
/-- The places that a statement assigns lie above the reserved bytes. -/
def stmtClear : TypedStatement → Bool
  | .assignment target value => target.clear && (target.addressSingle && value.single)
  | .ifStmt _ thenBranch elsifBranches elseBranch =>
    stmtsClear thenBranch && (elsifsClear elsifBranches &&
      (match elseBranch with
        | some stmts => stmtsClear stmts
        | none => true))
  | .forStmt _ varOffset start _ step body =>
    decide (reservedBytes ≤ asU32 varOffset) && (start.single && (stmtsClear body &&
      (match step with
        | some e => e.single
        | none => true)))
  | .whileStmt _ body => stmtsClear body
  | .repeatStmt body _ => stmtsClear body
  | .caseStmt _ branches elseBranch =>
    branchesClear branches &&
      (match elseBranch with
        | some stmts => stmtsClear stmts
        | none => true)
  | .exitStmt | .continueStmt | .returnStmt _ | .callStmt .. | .empty => true
/-- The statements of a list. -/
def stmtsClear : List TypedStatement → Bool
  | [] => true
  | stmt :: rest => stmtClear stmt && stmtsClear rest
/-- The ELSIF branches. -/
def elsifsClear : List (TypedExpr × List TypedStatement) → Bool
  | [] => true
  | (_, stmts) :: rest => stmtsClear stmts && elsifsClear rest
/-- The CASE branches that have a label. -/
def branchesClear : List (List Int × List TypedStatement) → Bool
  | [] => true
  | ([], _) :: rest => branchesClear rest
  | (_ :: _, stmts) :: rest => stmtsClear stmts && branchesClear rest
end

/-- Every place that the compilation unit assigns lies above the reserved bytes. -/
def TypedUnit.Clear (typed : TypedUnit) : Prop :=
  ∀ pou ∈ typed.units, stmtsClear pou.body = true

/-! ## Operands of expressions -/

/-- What the proofs use of the environment of an observed program. -/
structure Guards (env : Env Bounds) (link : String → Bool → Nat) : Prop where
  guard : env.guard = fun a => decide (a < reservedBytes)
  probe : env.probe = outOfBounds
  call : ∀ i args mem, env.call i args mem ≠ some (.error .guarded)
  funcType : LinksHosts env.funcType link
  results : ∀ name ft, hostType name = some ft → ∀ args mem results mem',
    env.call (link name false) args mem = some (.ok (results, mem')) →
      results.length = ft.results.length

/-- The operand is an address within the extent of the place. -/
def TypedExpr.InExtent (e : TypedExpr) (v : Value) : Prop :=
  ∀ low high, e.extent = some (low, high) →
    ∃ a : Int, low ≤ a ∧ a ≤ high ∧ v = .i32 (BitVec.ofInt 32 a)

theorem isBinary_selectOp {ty : DataType} {i32 i64 f32 f64 : Op} (h32 : i32.isBinary = true)
    (h64 : i64.isBinary = true) (hf32 : f32.isBinary = true) (hf64 : f64.isBinary = true) :
    (selectOp ty i32 i64 f32 f64).isBinary = true := by
  rw [selectOp]
  split
  · exact hf32
  · split
    · exact hf64
    · split
      · exact h64
      · exact h32

theorem isBinary_binaryOp {op : BinaryOp} (h : op ≠ .pow) (ty : DataType) :
    (binaryOp op ty).isBinary = true := by
  cases op with
  | add | sub | mul | div | eq | lt | gt => exact isBinary_selectOp rfl rfl rfl rfl
  | pow => exact absurd rfl h
  | mod | ne | le | ge | and | or | xor | bitAnd | bitOr | bitXor | shl | shr => rfl

theorem callSingle_iff {name : String} {isUserDefined : Bool} {count : Nat}
    (h : callSingle name isUserDefined count = true) :
    isUserDefined = false ∧ ∃ params r, hostType name = some ⟨params, [r]⟩ ∧
      params.length = count := by
  unfold callSingle at h
  split at h
  · next params r hhost => exact ⟨rfl, params, r, hhost, beq_iff_eq.1 h⟩
  · cases h

section Expressions

variable {env : Env Bounds} {link : String → Bool → Nat} (n : Nat)

theorem execSeq_op (o : Op) (s : State) :
    execSeq (machine env) n (ops [o]) s = stepOp env o s :=
  execSeq_singleton (machine env) n (.op o) s

theorem leaves_loadOp (ty : DataType) (offset : Nat) (v : Value) (st l : List Value) (m : Memory) :
    Leaves anyValue st (stepOp env (loadOp ty offset) ⟨v :: st, l, m⟩) := by
  cases ty <;> exact leaves_loadWith _ _ _ v

theorem leaves_unaryOps (op : UnaryOp) (ty : DataType) (v : Value) (st l : List Value)
    (m : Memory) :
    Leaves anyValue st (execSeq (machine env) n (ops (unaryOps op ty)) ⟨v :: st, l, m⟩) := by
  -- a constant and an operation on it and the operand
  have hpair : ∀ (c : Value) (o : Op), o.isBinary = true →
      Leaves anyValue st (execSeq (machine env) n (ops [.const c, o]) ⟨v :: st, l, m⟩) := by
    intro c o ho
    rw [execSeq_ops_cons, machine_step, stepOp_const, Outcome.andThen_normal, execSeq_op]
    exact leaves_binary ho v c
  cases op with
  | neg => cases ty <;> exact hpair _ _ rfl
  | not => exact hpair _ _ rfl

/-- After the observation of an index it is within the bounds of an array. -/
theorem stacks_indexProbe (h : Guards env link) (ty : DataType) (v : Value) (st l : List Value)
    (m : Memory) :
    Stacks (fun st' => st' = v :: st ∧
        ∀ lower upper elementType, ty = .array lower upper elementType →
          ∃ x : BitVec 32, v = .i32 x ∧ lower ≤ x.toInt ∧ x.toInt ≤ upper)
      (execSeq (machine env) n (indexProbe ty) ⟨v :: st, l, m⟩) := by
  cases ty with
  | array lower upper elementType =>
    rw [indexProbe, execSeq_singleton, exec_probe, machine_probe, h.probe, outOfBounds]
    cases v with
    | i32 x =>
      by_cases hx : lower ≤ x.toInt ∧ x.toInt ≤ upper
      · dsimp only
        rw [if_pos hx]
        refine ⟨rfl, ?_⟩
        intro lower' upper' elementType' hty
        cases hty
        exact ⟨x, rfl, hx⟩
      · dsimp only
        rw [if_neg hx]
        exact fun he => by cases he
    | i64 x => exact fun he => by cases he
    | f32 x => exact fun he => by cases he
    | f64 x => exact fun he => by cases he
  | _ => exact ⟨rfl, nofun⟩

/-- The scaled index is added to the address. -/
theorem leaves_scaleCode (elementSize : Nat) (address index : Value) (st l : List Value)
    (m : Memory) :
    Leaves (fun v => ∀ (a : Int) (x : BitVec 32), address = .i32 (BitVec.ofInt 32 a) →
        index = .i32 x → v = .i32 (BitVec.ofInt 32 (a + x.toInt * elementSize))) st
      (execSeq (machine env) n (scaleCode elementSize) ⟨index :: address :: st, l, m⟩) := by
  rw [scaleCode, execSeq_ops_cons, machine_step, stepOp_const, Outcome.andThen_normal,
    execSeq_ops_cons, machine_step]
  cases index with
  | i32 x =>
    cases address with
    | i32 y =>
      refine ⟨_, ?_, rfl⟩
      intro a x' ha hx
      cases ha
      cases hx
      show Value.i32 (BitVec.ofInt 32 a + x * BitVec.ofNat 32 elementSize) = _
      have hsize : BitVec.ofNat 32 elementSize = BitVec.ofInt 32 (elementSize : Int) :=
        (BitVec.ofInt_natCast 32 elementSize).symm
      rw [BitVec.ofInt_add, BitVec.ofInt_mul, BitVec.ofInt_toInt, hsize]
    | i64 y => exact fun he => by cases he
    | f32 y => exact fun he => by cases he
    | f64 y => exact fun he => by cases he
  | i64 x => exact fun he => by cases he
  | f32 x => exact fun he => by cases he
  | f64 x => exact fun he => by cases he

mutual
/-- The code of such an expression leaves one operand. -/
theorem leaves_exprCode (h : Guards env link) : ∀ (e : TypedExpr), e.single = true →
    ∀ st l m, Leaves anyValue st (execSeq (machine env) n (exprCode link e) ⟨st, l, m⟩)
  | .literal lit _, _, st, l, m => leaves_push ⟨st, l, m⟩ trivial
  | .variable _ offset ty, _, st, l, m => by
    rw [exprCode, execSeq_ops_cons, machine_step, stepOp_const, Outcome.andThen_normal, execSeq_op]
    exact leaves_loadOp ty _ _ st l m
  | .arrayAccess array index elementSize ty, hs, st, l, m => by
    rw [TypedExpr.single, Bool.and_eq_true] at hs
    rw [exprCode, execSeq_append]
    apply (leaves_addressCode h array hs.1 st l m).andThen
    intro address l m _
    rw [execSeq_append]
    apply (leaves_exprCode h index hs.2 _ l m).andThen
    intro i l m _
    rw [execSeq_append]
    -- past the observation the index is within the declared bounds
    apply (stacks_indexProbe n h array.ty i _ l m).andThen
    rintro _ l m ⟨rfl, -⟩
    rw [execSeq_append]
    apply (leaves_scaleCode n elementSize address i st l m).andThen
    intro v l m _
    rw [execSeq_op]
    exact leaves_loadOp ty 0 v st l m
  | .fieldAccess object _ fieldOffset ty, hs, st, l, m => by
    rw [TypedExpr.single] at hs
    rw [exprCode, execSeq_append]
    apply (leaves_addressCode h object hs st l m).andThen
    intro address l m _
    rw [execSeq_op]
    exact leaves_loadOp ty _ address st l m
  | .binary left op right _, hs, st, l, m => by
    simp only [TypedExpr.single, Bool.and_eq_true, bne_iff_ne] at hs
    rw [exprCode, execSeq_append]
    apply (leaves_exprCode h left hs.2.1 st l m).andThen
    intro v l m _
    rw [execSeq_append]
    apply (leaves_exprCode h right hs.2.2 _ l m).andThen
    intro w l m _
    rw [execSeq_op]
    exact leaves_binary (isBinary_binaryOp hs.1 left.ty) v w
  | .unary op operand _, hs, st, l, m => by
    rw [TypedExpr.single] at hs
    rw [exprCode, execSeq_append]
    apply (leaves_exprCode h operand hs st l m).andThen
    intro v l m _
    exact leaves_unaryOps n op operand.ty v st l m
  | .call name arguments isUserDefined _, hs, st, l, m => by
    rw [TypedExpr.single, Bool.and_eq_true] at hs
    obtain ⟨rfl, params, r, hhost, hcount⟩ := callSingle_iff hs.1
    rw [exprCode, execSeq_append]
    apply (stacks_argumentsCode h arguments hs.2 st l m).andThen
    rintro _ l m ⟨args, hlength, rfl⟩
    rw [execSeq_op]
    exact leaves_call (h.funcType name _ hhost) (h.call _) (h.results name _ hhost)
      (hlength.trans hcount.symm)
/-- The code of an address leaves one operand, for a place an address within its extent. -/
theorem leaves_addressCode (h : Guards env link) : ∀ (e : TypedExpr), e.addressSingle = true →
    ∀ st l m, Leaves e.InExtent st (execSeq (machine env) n (addressCode link e) ⟨st, l, m⟩)
  | .variable _ offset _, _, st, l, m => by
    apply leaves_push ⟨st, l, m⟩
    intro low high hextent
    cases hextent
    exact ⟨offset, Int.le_refl _, Int.le_refl _,
      congrArg Value.i32 (BitVec.ofInt_natCast 32 offset).symm⟩
  | .arrayAccess array index elementSize ty, hs, st, l, m => by
    rw [TypedExpr.addressSingle, Bool.and_eq_true] at hs
    rw [addressCode, execSeq_append]
    apply (leaves_addressCode h array hs.1 st l m).andThen
    intro address l m haddress
    rw [execSeq_append]
    apply (leaves_exprCode h index hs.2 _ l m).andThen
    intro i l m _
    rw [execSeq_append]
    apply (stacks_indexProbe n h array.ty i _ l m).andThen
    rintro _ l m ⟨rfl, hbounds⟩
    apply (leaves_scaleCode n elementSize address i st l m).mono
    rintro s ⟨v, hv, hstack⟩
    refine ⟨v, ?_, hstack⟩
    intro low high hextent
    rw [TypedExpr.extent] at hextent
    split at hextent
    · next low' high' lower upper elementType harray hty =>
      cases hextent
      obtain ⟨a, hlow, hhigh, rfl⟩ := haddress low' high' harray
      obtain ⟨x, rfl, hlower, hupper⟩ := hbounds lower upper elementType hty
      have hsize : (0 : Int) ≤ elementSize := Int.natCast_nonneg _
      exact ⟨a + x.toInt * elementSize,
        Int.add_le_add hlow (Int.mul_le_mul_of_nonneg_right hlower hsize),
        Int.add_le_add hhigh (Int.mul_le_mul_of_nonneg_right hupper hsize), hv a x rfl rfl⟩
    · cases hextent
  | .literal .., _, st, l, m | .fieldAccess .., _, st, l, m | .binary .., _, st, l, m
  | .unary .., _, st, l, m | .call .., _, st, l, m => by
    apply leaves_push ⟨st, l, m⟩
    intro low high hextent
    cases hextent
theorem stacks_argumentsCode (h : Guards env link) : ∀ (es : List TypedExpr),
    argumentsSingle es = true → ∀ st l m,
      Stacks (fun st' => ∃ args, args.length = es.length ∧ st' = args ++ st)
        (execSeq (machine env) n (argumentsCode link es) ⟨st, l, m⟩)
  | [], _, st, l, m => ⟨[], rfl, rfl⟩
  | e :: es, hs, st, l, m => by
    rw [argumentsSingle, Bool.and_eq_true] at hs
    rw [argumentsCode, execSeq_append]
    apply (leaves_exprCode h e hs.1 st l m).andThen
    intro v l m _
    apply (stacks_argumentsCode h es hs.2 (v :: st) l m).mono
    rintro s ⟨args, hlength, hstack⟩
    refine ⟨args ++ [v], ?_, ?_⟩
    · rw [List.length_append, List.length_cons, hlength]
      rfl
    · rw [hstack, List.append_assoc]
      rfl
end

end Expressions

/-! ## Code that stores above the reserved bytes -/

/-- No run of the code stops at a reserved byte. -/
abbrev Spares (env : Env Bounds) (code : PlcCode) : Prop := Avoids (machine env) .guarded code

section Spares

variable {env : Env Bounds} {link : String → Bool → Nat}

theorem spares_ops (h : Guards env link) : ∀ os : List Op,
    (∀ o ∈ os, o.isStore = false) → Spares env (ops os)
  | [], _ => .nil
  | o :: os, hos => by
    have hfirst : Spares env [.op o] :=
      .singleton fun n s => stepOp_ne_guarded h.call (hos o List.mem_cons_self) s
    exact hfirst.append (spares_ops h os fun o' ho' => hos o' (List.mem_cons_of_mem _ ho'))

theorem spares_indexProbe (h : Guards env link) (ty : DataType) : Spares env (indexProbe ty) := by
  cases ty with
  | array lower upper elementType =>
    apply Avoids.singleton
    intro n s
    rw [exec_probe, machine_probe, h.probe, outOfBounds]
    split
    · split <;> exact fun he => by cases he
    · exact fun he => by cases he
  | _ => exact .nil

theorem isStore_loadOp (ty : DataType) (offset : Nat) : (loadOp ty offset).isStore = false := by
  cases ty <;> rfl

theorem isStore_binaryOp (op : BinaryOp) (ty : DataType) : (binaryOp op ty).isStore = false := by
  by_cases hop : op = .pow
  · rw [hop]
    rfl
  · have hbinary := isBinary_binaryOp hop ty
    cases hb : binaryOp op ty with
    | store | store8 | store16 =>
      rw [hb] at hbinary
      cases hbinary
    | _ => rfl

theorem isStore_unaryOps (op : UnaryOp) (ty : DataType) :
    ∀ o ∈ unaryOps op ty, o.isStore = false := by
  cases op with
  | neg => cases ty <;> simp [unaryOps, Op.isStore]
  | not => simp [unaryOps, Op.isStore]

mutual
/-- Code of expressions does not store. -/
theorem spares_exprCode (h : Guards env link) : ∀ e : TypedExpr, Spares env (exprCode link e)
  | .literal lit _ => spares_ops h _ (by simp [Op.isStore])
  | .variable _ offset ty =>
    spares_ops h _ (List.forall_mem_cons.2 ⟨rfl, List.forall_mem_singleton.2 (isStore_loadOp ty _)⟩)
  | .arrayAccess array index elementSize ty =>
    (spares_addressCode h array).append <| (spares_exprCode h index).append <|
      (spares_indexProbe h array.ty).append <|
        (spares_ops h _ (by simp [Op.isStore])).append
          (spares_ops h _ (List.forall_mem_singleton.2 (isStore_loadOp ty _)))
  | .fieldAccess object _ fieldOffset ty =>
    (spares_addressCode h object).append
      (spares_ops h _ (List.forall_mem_singleton.2 (isStore_loadOp ty _)))
  | .binary left op right _ =>
    (spares_exprCode h left).append <| (spares_exprCode h right).append
      (spares_ops h _ (List.forall_mem_singleton.2 (isStore_binaryOp op left.ty)))
  | .unary op operand _ =>
    (spares_exprCode h operand).append (spares_ops h _ (isStore_unaryOps op operand.ty))
  | .call name arguments isUserDefined _ =>
    (spares_argumentsCode h arguments).append (spares_ops h _ (by simp [Op.isStore]))
theorem spares_addressCode (h : Guards env link) : ∀ e : TypedExpr, Spares env (addressCode link e)
  | .variable _ offset _ => spares_ops h _ (by simp [Op.isStore])
  | .arrayAccess array index elementSize _ =>
    (spares_addressCode h array).append <| (spares_exprCode h index).append <|
      (spares_indexProbe h array.ty).append (spares_ops h _ (by simp [Op.isStore]))
  | .literal .. | .fieldAccess .. | .binary .. | .unary .. | .call .. =>
    spares_ops h _ (by simp [Op.isStore])
theorem spares_argumentsCode (h : Guards env link) : ∀ es : List TypedExpr,
    Spares env (argumentsCode link es)
  | [] => .nil
  | e :: es => (spares_exprCode h e).append (spares_argumentsCode h es)
end

theorem spares_cond {thn : PlcCode} {els : Option PlcCode} (hthn : Spares env thn)
    (hels : ∀ code, els = some code → Spares env code) : Spares env [condCode thn els] := by
  cases els with
  | none => exact .ifThen State.test_ne_guarded hthn
  | some code => exact .ifElse State.test_ne_guarded hthn (hels code rfl)

/-- A store at a place above the reserved bytes. -/
theorem store_spares (h : Guards env link) {a : BitVec 32} {offset n : Nat} {t : ValType}
    (ha : reservedBytes ≤ a.toNat + offset) (v : Value) (st l : List Value) (m : Memory) :
    State.storeWith env ⟨v :: .i32 a :: st, l, m⟩ t offset n ≠ .abort .guarded := by
  apply storeWith_ne_guarded
  apply Env.guarded_eq_false
  intro i hi _
  rw [h.guard]
  exact decide_eq_false (by omega)

theorem spares_assignment (h : Guards env link) {target value : TypedExpr}
    (hclear : target.clear = true) (htarget : target.addressSingle = true)
    (hvalue : value.single = true) :
    Spares env (addressCode link target ++ (exprCode link value ++ ops [storeOp target.ty])) := by
  rw [TypedExpr.clear] at hclear
  split at hclear
  · next low high hextent =>
    obtain ⟨hlow, hhigh⟩ := of_decide_eq_true hclear
    rintro n ⟨st, l, m⟩
    rw [execSeq_append]
    apply (leaves_addressCode n h target htarget st l m).andThen_ne_guarded
    intro address l m haddress
    obtain ⟨a, hle, hge, rfl⟩ := haddress low high hextent
    rw [execSeq_append]
    apply (leaves_exprCode n h value hvalue _ l m).andThen_ne_guarded
    intro v l m _
    rw [execSeq_op, stepOp_storeOp]
    apply store_spares h
    -- the address does not wrap around
    have hbase : (0 : Int) ≤ reservedBytes := Int.natCast_nonneg _
    have hmod : a % 2 ^ 32 = a := Int.emod_eq_of_lt (by omega) (by omega)
    have hnat : ((BitVec.ofInt 32 a).toNat : Int) = a := by
      rw [BitVec.toNat_ofInt, Int.toNat_of_nonneg (Int.emod_nonneg _ (by decide))]
      exact hmod
    omega
  · cases hclear

/-- The bookkeeping of a FOR. -/
theorem spares_forCode (h : Guards env link) {offset : Nat} {start : TypedExpr}
    {stop stepping body : PlcCode} (hoffset : reservedBytes ≤ offset)
    (hstart : start.single = true) (hstop : Spares env stop) (hbody : Spares env body)
    (hstep : ∀ n st l m, Leaves anyValue st (execSeq (machine env) n stepping ⟨st, l, m⟩)) :
    Spares env (forCode offset (exprCode link start) stop stepping body) := by
  have hfirst : Spares env (ops [.const (.i32 0)] ++ (exprCode link start ++
      ops [.store .i32 offset])) := by
    rintro n ⟨st, l, m⟩
    rw [execSeq_append, execSeq_op, stepOp_const, State.push_mk, Outcome.andThen_normal,
      execSeq_append]
    apply (leaves_exprCode n h start hstart _ l m).andThen_ne_guarded
    intro v l m _
    rw [execSeq_op]
    exact store_spares h (by simpa using hoffset) v st l m
  have hnext : Spares env (ops [.const (.i32 0), .const (.i32 0), .load .i32 offset] ++
      (stepping ++ ops [.i32Bin .add, .store .i32 offset, .br 0])) := by
    rintro n ⟨st, l, m⟩
    have hload : Leaves anyValue (.i32 0 :: st) (execSeq (machine env) n
        (ops [.const (.i32 0), .const (.i32 0), .load .i32 offset]) ⟨st, l, m⟩) := by
      rw [execSeq_ops_cons, machine_step, stepOp_const, State.push_mk, Outcome.andThen_normal,
        execSeq_ops_cons, machine_step, stepOp_const, State.push_mk, Outcome.andThen_normal,
        execSeq_op]
      exact leaves_loadWith _ _ _ _
    rw [execSeq_append]
    apply hload.andThen_ne_guarded
    intro x l m _
    rw [execSeq_append]
    apply (hstep n _ l m).andThen_ne_guarded
    intro y l m _
    rw [execSeq_ops_cons, machine_step]
    apply (leaves_binary rfl x y).andThen_ne_guarded
    intro v l m _
    rw [execSeq_ops_cons, machine_step]
    apply Outcome.andThen_ne_abort
    · exact store_spares h (by simpa using hoffset) v st l m
    · exact spares_ops h [.br 0] (by simp [Op.isStore]) n
  have htest : Spares env (ops [.const (.i32 0), .load .i32 offset] ++ (stop ++
      ops [.i32Rel .gtS, .brIf 1])) :=
    (spares_ops h _ (by simp [Op.isStore])).append
      (hstop.append (spares_ops h _ (by simp [Op.isStore])))
  have hloop := Avoids.block (Avoids.loop (htest.append (hbody.append hnext)))
  simpa only [forCode, List.append_assoc] using hfirst.append hloop

theorem spares_whileCode (h : Guards env link) {condition body : PlcCode}
    (hcondition : Spares env condition) (hbody : Spares env body) :
    Spares env (whileCode condition body) :=
  .block <| .loop <| hcondition.append <|
    (spares_ops h _ (by simp [Op.isStore])).append <|
      hbody.append (spares_ops h _ (by simp [Op.isStore]))

theorem spares_repeatCode (h : Guards env link) {body untilCond : PlcCode}
    (hbody : Spares env body) (huntil : Spares env untilCond) :
    Spares env (repeatCode body untilCond) :=
  .block <| .loop <| hbody.append <| huntil.append (spares_ops h _ (by simp [Op.isStore]))

theorem isStore_caseTestOps (sel : Nat) (v : Int) : ∀ o ∈ caseTestOps sel v, o.isStore = false := by
  simp [caseTestOps, Op.isStore]

theorem isStore_caseConditionOps (sel : Nat) (v : Int) (vs : List Int) :
    ∀ o ∈ caseConditionOps sel (v :: vs), o.isStore = false := by
  rw [caseConditionOps, List.forall_mem_append]
  refine ⟨isStore_caseTestOps sel v, ?_⟩
  intro o ho
  obtain ⟨w, -, hw⟩ := List.mem_flatMap.1 ho
  rcases List.mem_append.1 hw with hw | hw
  · exact isStore_caseTestOps sel w o hw
  · rw [List.mem_singleton.1 hw]
    rfl

theorem spares_case (h : Guards env link) {sel : Nat} (selector : TypedExpr)
    {chain : Option PlcCode} (hchain : ∀ code, chain = some code → Spares env code) :
    Spares env (exprCode link selector ++ (ops [.localSet sel] ++ chain.getD [])) := by
  apply (spares_exprCode h selector).append
  apply (spares_ops h _ (by simp [Op.isStore])).append
  cases chain with
  | none => exact .nil
  | some code => exact hchain code rfl

mutual
/-- Clear statements store above the reserved bytes. -/
theorem spares_stmtCode (h : Guards env link) : ∀ (stmt : TypedStatement) {depth base : Nat},
    stmtClear stmt = true → Spares env (stmtCode link stmt depth base)
  | .assignment target value, _, _, hs => by
    simp only [stmtClear, Bool.and_eq_true] at hs
    exact spares_assignment h hs.1 hs.2.1 hs.2.2
  | .ifStmt condition thenBranch elsifBranches none, _, _, hs => by
    simp only [stmtClear, Bool.and_eq_true] at hs
    apply (spares_exprCode h condition).append
    apply spares_cond (spares_stmtsCode h thenBranch hs.1)
    exact spares_elsifsCode h elsifBranches hs.2.1 fun _ hcode => by cases hcode
  | .ifStmt condition thenBranch elsifBranches (some stmts), _, _, hs => by
    simp only [stmtClear, Bool.and_eq_true] at hs
    apply (spares_exprCode h condition).append
    apply spares_cond (spares_stmtsCode h thenBranch hs.1)
    apply spares_elsifsCode h elsifBranches hs.2.1
    intro code hcode
    cases hcode
    exact spares_stmtsCode h stmts hs.2.2
  | .forStmt _ varOffset start stop none body, _, _, hs => by
    simp only [stmtClear, Bool.and_eq_true] at hs
    exact spares_forCode h (of_decide_eq_true hs.1) hs.2.1 (spares_exprCode h stop)
      -- the default step is a constant
      (spares_stmtsCode h body hs.2.2.1) fun n st l m => leaves_push ⟨st, l, m⟩ trivial
  | .forStmt _ varOffset start stop (some step) body, _, _, hs => by
    simp only [stmtClear, Bool.and_eq_true] at hs
    exact spares_forCode h (of_decide_eq_true hs.1) hs.2.1 (spares_exprCode h stop)
      (spares_stmtsCode h body hs.2.2.1) fun n => leaves_exprCode n h step hs.2.2.2
  | .whileStmt condition body, _, _, hs =>
    spares_whileCode h (spares_exprCode h condition) (spares_stmtsCode h body hs)
  | .repeatStmt body untilCond, _, _, hs =>
    spares_repeatCode h (spares_stmtsCode h body hs) (spares_exprCode h untilCond)
  | .caseStmt selector branches none, _, _, hs => by
    simp only [stmtClear, Bool.and_eq_true] at hs
    apply spares_case h selector
    exact spares_branchesCode h branches hs.1 _ fun _ hcode => by cases hcode
  | .caseStmt selector branches (some stmts), _, _, hs => by
    simp only [stmtClear, Bool.and_eq_true] at hs
    apply spares_case h selector
    apply spares_branchesCode h branches hs.1
    intro code hcode
    cases hcode
    exact spares_stmtsCode h stmts hs.2
  | .exitStmt, _, _, _ => spares_ops h _ (by simp [Op.isStore])
  | .continueStmt, _, _, _ => spares_ops h _ (by simp [Op.isStore])
  | .returnStmt none, _, _, _ => spares_ops h [.ret] (by simp [Op.isStore])
  | .returnStmt (some e), _, _, _ =>
    (spares_exprCode h e).append (spares_ops h _ (by simp [Op.isStore]))
  | .callStmt name arguments isUserDefined, _, _, _ =>
    (spares_argumentsCode h arguments).append (spares_ops h _ (by simp [Op.isStore]))
  | .empty, _, _, _ => .nil
theorem spares_stmtsCode (h : Guards env link) : ∀ (stmts : List TypedStatement)
    {depth base : Nat}, stmtsClear stmts = true → Spares env (stmtsCode link stmts depth base)
  | [], _, _, _ => .nil
  | stmt :: rest, _, _, hs => by
    rw [stmtsClear, Bool.and_eq_true] at hs
    exact (spares_stmtCode h stmt hs.1).append (spares_stmtsCode h rest hs.2)
theorem spares_elsifsCode (h : Guards env link) :
    ∀ (xs : List (TypedExpr × List TypedStatement)) {depth base : Nat} {els : Option PlcCode},
      elsifsClear xs = true → (∀ code, els = some code → Spares env code) →
        ∀ code, elsifsCode link xs depth base els = some code → Spares env code
  | [], _, _, _, _, hels => hels
  | (condition, stmts) :: rest, _, _, _, hs, hels => by
    rw [elsifsClear, Bool.and_eq_true] at hs
    intro code hcode
    cases hcode
    exact (spares_exprCode h condition).append
      (spares_cond (spares_stmtsCode h stmts hs.1) (spares_elsifsCode h rest hs.2 hels))
theorem spares_branchesCode (h : Guards env link) :
    ∀ (xs : List (List Int × List TypedStatement)) {depth base sel : Nat},
      branchesClear xs = true → ∀ els : Option PlcCode,
        (∀ code, els = some code → Spares env code) →
          ∀ code, branchesCode link xs depth base sel els = some code → Spares env code
  | [], _, _, _, _, _, hels => hels
  | ([], _) :: rest, _, _, _, hs, els, hels => spares_branchesCode h rest hs els hels
  | (v :: vs, stmts) :: rest, _, _, sel, hs, els, hels => by
    rw [branchesClear, Bool.and_eq_true] at hs
    intro code hcode
    cases hcode
    exact (spares_ops h _ (isStore_caseConditionOps sel v vs)).append
      (spares_cond (spares_stmtsCode h stmts hs.1) (spares_branchesCode h rest hs.2 els hels))
end

end Spares

/-! ## Programs -/

section Programs

variable {typed : TypedUnit} {float : FloatOps} {hosts : List HostFunction}

/-- A host function returns results of its declared types. -/
theorem call_host_results (hhosts : hosts.length = importHostFunctions.length) (n d : Nat)
    {name : String} {ft : FuncType} (hhost : hostType name = some ft) {args results : List Value}
    {mem mem' : Memory}
    (hcall : (typed.program float hosts).call n d (typed.emitter.link name false) args mem =
      some (.ok (results, mem'))) : results.length = ft.results.length := by
  obtain ⟨i, hresolve, hi, htype⟩ := resolve_host typed hhost
  have hlink : typed.emitter.link name false = i := by rw [WasmEmitter.link, hresolve]
  rw [hlink] at hcall
  cases d with
  | zero => cases hcall
  | succ d =>
    have hfunction : (typed.program float hosts).hosts[i]? = some (hosts.get ⟨i, hhosts ▸ hi⟩) :=
      List.getElem?_eq_getElem _
    have hfuncType : (typed.program float hosts).funcType i = some ft := htype
    rw [Instance.call, hfuncType] at hcall
    simp only [hfunction, hostResult] at hcall
    split at hcall
    · split at hcall
      · next htypes =>
        cases hcall
        rw [← htypes, List.length_map]
      · cases hcall
    · cases hcall

theorem guards_program (hhosts : hosts.length = importHostFunctions.length) {n d : Nat}
    (h : ∀ i args mem, (typed.program float hosts).call n d i args mem ≠ some (.error .guarded)) :
    Guards ((typed.program float hosts).env ((typed.program float hosts).call n d))
      typed.emitter.link where
  guard := rfl
  probe := rfl
  call := h
  funcType := linksHosts typed
  results := fun _ _ hhost _ _ _ _ hcall => call_host_results hhosts n d hhost hcall

theorem bodyResult_ne_guarded {results : Nat} {o : Outcome Fault State}
    (h : o ≠ .abort .guarded) : bodyResult results o ≠ some (.error .guarded) := by
  cases o with
  | normal s => exact fun he => by cases he
  | br d s => cases d <;> exact fun he => by cases he
  | ret s => exact fun he => by cases he
  | abort e =>
    intro he
    cases he
    exact h rfl
  | timeout => exact fun he => by cases he

theorem hostResult_ne_guarded (results : List ValType) (r : Option (List Value × Memory)) :
    hostResult results r ≠ some (.error .guarded) := by
  cases r with
  | none => exact fun he => by cases he
  | some r =>
    rw [hostResult]
    split <;> exact fun he => by cases he

/-- Compiled code keeps out of the reserved bytes if every place that it assigns lies above them. -/
theorem isolated_of_clear (h : typed.Clear) : typed.Isolated := by
  intro float hosts hhosts n d
  induction d with
  | zero => exact fun _ _ _ he => by cases he
  | succ d ih =>
    intro i args mem
    rw [Instance.call]
    split
    · exact fun he => by cases he
    · split
      · exact hostResult_ne_guarded _ _
      · split
        · next b hb =>
          obtain ⟨pou, hpou, rfl⟩ := List.mem_map.1 (List.mem_of_getElem? hb)
          apply bodyResult_ne_guarded
          exact spares_stmtsCode (guards_program hhosts ih) pou.body (h pou hpou) n _
        · exact fun he => by cases he

end Programs

/-- `PROGRAM Main VAR i : INT; a : ARRAY[0..3] OF INT; END_VAR a[i] := 1; END_PROGRAM`. -/
def elementProgram : CompilationUnit :=
  ⟨[.program ⟨"Main", [⟨.var, false, [⟨"i", .int, none⟩, ⟨"a", .array 0 3 .int, none⟩]⟩],
    [.assignment (.arrayAccess (.variable "a") (.variable "i")) (.literal (.integer 1))]⟩]⟩

theorem isolated_element : ∃ typed, check .debug elementProgram = .ok typed ∧ typed.Clear ∧
    typed.Isolated :=
  ⟨_, rfl, by unfold TypedUnit.Clear; decide,
    isolated_of_clear (by unfold TypedUnit.Clear; decide)⟩

theorem isolated_fails : ¬ ∀ (b : Build) (ast : CompilationUnit) (typed : TypedUnit),
    check b ast = .ok typed → typed.module.Valid → typed.Isolated := by
  intro h
  -- a field of a variable lowers to the address 0
  obtain ⟨typed, hcheck⟩ : ∃ typed, check .debug (intProgram
      [.assignment (.fieldAccess (.variable "x") "y") (.literal (.integer 1))]) = .ok typed :=
    ⟨_, rfl⟩
  have htyped : typed.Typed := by
    cases hcheck
    unfold TypedUnit.Typed
    decide
  have hstep : typed.units.countP TypedPou.isStep ≤ 1 := by
    cases hcheck
    decide
  have hrun := h .debug _ typed hcheck (htyped.valid_iff.2 hstep)
    ⟨fun _ x _ => x, fun _ x _ => x, fun _ _ _ => false, fun _ _ _ => false⟩
    (List.replicate 5 fun _ _ => none) rfl 1 1 5 [] (.zeroed pageSize)
  cases hcheck
  exact hrun rfl

end VirtualPlc.Compiler
