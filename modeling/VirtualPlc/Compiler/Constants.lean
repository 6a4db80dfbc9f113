import VirtualPlc.Compiler.MemoryMap

/-!
# CONSTANT

The flag of a CONSTANT block reaches the symbols of its variables and nothing reads it there:
checking commutes with clearing the flags, and the emitted module does not depend on them
(`constant_recorded`). So a CONSTANT variable is assigned wherever another one is
(`constantsKept_fails`).
-/

set_option autoImplicit false

namespace VirtualPlc.Compiler

open VirtualPlc.Word

/-! ## Clearing the flags -/

/-- The block without its flag. -/
def VarBlock.unmarked (block : VarBlock) : VarBlock := { block with constant := false }

/-- The POU without the flags of its blocks. -/
def ProgramUnit.unmarked : ProgramUnit → ProgramUnit
  | .program p => .program { p with vars := p.vars.map VarBlock.unmarked }
  | .functionBlock fb => .functionBlock { fb with vars := fb.vars.map VarBlock.unmarked }
  | .function f => .function { f with vars := f.vars.map VarBlock.unmarked }

/-- The compilation unit without the flags of its blocks. -/
def CompilationUnit.unmarked (ast : CompilationUnit) : CompilationUnit :=
  ⟨ast.units.map ProgramUnit.unmarked⟩

/-- The symbol without its flag. -/
def SymbolInfo.unmarked (info : SymbolInfo) : SymbolInfo := { info with constant := false }

/-- The symbols without their flags. -/
def SymbolTable.unmarked (symbols : SymbolTable) : SymbolTable :=
  { symbols with vars := symbols.vars.map fun entry => (entry.1, entry.2.unmarked) }

/-- The checker without the flags of its symbols. -/
def TypeChecker.unmarked (tc : TypeChecker) : TypeChecker :=
  { tc with symbols := tc.symbols.unmarked }

/-- The typed POU without the flags of its symbols. -/
def TypedPou.unmarked : TypedPou → TypedPou
  | .program p => .program { p with symbols := p.symbols.unmarked }
  | .functionBlock fb => .functionBlock { fb with symbols := fb.symbols.unmarked }
  | .function f => .function { f with symbols := f.symbols.unmarked }

/-- The typed unit without the flags of its symbols. -/
def TypedUnit.unmarked (typed : TypedUnit) : TypedUnit :=
  { typed with units := typed.units.map TypedPou.unmarked }

/-! ## Checking without the flags -/

section Check

variable (b : Build) (tc : TypeChecker)

theorem lookup_unmarked (name : String) :
    tc.unmarked.symbols.vars.lookup name =
      (tc.symbols.vars.lookup name).map SymbolInfo.unmarked := by
  show (tc.symbols.vars.map fun entry => (entry.1, entry.2.unmarked)).lookup name = _
  induction tc.symbols.vars with
  | nil => rfl
  | cons entry rest ih =>
    rw [List.map_cons, List.lookup_cons, List.lookup_cons]
    cases name == entry.1 with
    | true => rfl
    | false => exact ih

theorem checkVariable_unmarked (name : String) :
    tc.unmarked.checkVariable name = tc.checkVariable name := by
  rw [TypeChecker.checkVariable, TypeChecker.checkVariable, lookup_unmarked]
  cases tc.symbols.vars.lookup name <;> rfl

theorem checkCallee_unmarked (name : String) :
    tc.unmarked.checkCallee name = tc.checkCallee name := rfl

theorem checkForVariable_unmarked (name : String) :
    tc.unmarked.checkForVariable name = (tc.checkForVariable name).map SymbolInfo.unmarked := by
  rw [TypeChecker.checkForVariable, TypeChecker.checkForVariable, lookup_unmarked]
  cases tc.symbols.vars.lookup name <;> rfl

mutual
theorem checkExpr_unmarked : ∀ e : Expression, tc.unmarked.checkExpr b e = tc.checkExpr b e
  | .literal lit => rfl
  | .variable name => by
    rw [TypeChecker.checkExpr, TypeChecker.checkExpr, checkVariable_unmarked]
  | .arrayAccess array index => by
    rw [TypeChecker.checkExpr, TypeChecker.checkExpr, checkExpr_unmarked array,
      checkExpr_unmarked index]
  | .fieldAccess object field => by
    rw [TypeChecker.checkExpr, TypeChecker.checkExpr, checkExpr_unmarked object]
  | .binary left op right => by
    rw [TypeChecker.checkExpr, TypeChecker.checkExpr, checkExpr_unmarked left,
      checkExpr_unmarked right]
  | .unary op operand => by
    rw [TypeChecker.checkExpr, TypeChecker.checkExpr, checkExpr_unmarked operand]
  | .call name arguments => by
    rw [TypeChecker.checkExpr, TypeChecker.checkExpr, checkArguments_unmarked arguments,
      checkCallee_unmarked]
  | .paren inner => by
    rw [TypeChecker.checkExpr, TypeChecker.checkExpr, checkExpr_unmarked inner]
theorem checkArguments_unmarked : ∀ args : List (Option String × Expression),
    tc.unmarked.checkArguments b args = tc.checkArguments b args
  | [] => rfl
  | (_, value) :: rest => by
    rw [TypeChecker.checkArguments, TypeChecker.checkArguments, checkExpr_unmarked value,
      checkArguments_unmarked rest]
end

theorem checkOptional_unmarked (e : Option Expression) :
    tc.unmarked.checkOptional b e = tc.checkOptional b e := by
  cases e with
  | none => rfl
  | some e => rw [TypeChecker.checkOptional, TypeChecker.checkOptional, checkExpr_unmarked]

mutual
/-- A statement is checked alike with and without the flags. -/
theorem checkStatement_unmarked : ∀ stmt : Statement,
    tc.unmarked.checkStatement b stmt = tc.checkStatement b stmt
  | .assignment target value => by
    rw [TypeChecker.checkStatement, TypeChecker.checkStatement, checkExpr_unmarked,
      checkExpr_unmarked]
  | .ifStmt condition thenBranch elsifBranches none => by
    simp only [TypeChecker.checkStatement, checkExpr_unmarked, checkStatements_unmarked thenBranch,
      checkElsifs_unmarked elsifBranches]
  | .ifStmt condition thenBranch elsifBranches (some stmts) => by
    simp only [TypeChecker.checkStatement, checkExpr_unmarked, checkStatements_unmarked thenBranch,
      checkElsifs_unmarked elsifBranches, checkStatements_unmarked stmts]
  | .forStmt varName start stop step body => by
    -- only the offset of the control variable is used
    rw [TypeChecker.checkStatement, TypeChecker.checkStatement, checkForVariable_unmarked,
      checkExpr_unmarked, checkExpr_unmarked, checkOptional_unmarked,
      checkStatements_unmarked body]
    cases tc.checkForVariable varName <;> rfl
  | .whileStmt condition body => by
    rw [TypeChecker.checkStatement, TypeChecker.checkStatement, checkExpr_unmarked,
      checkStatements_unmarked body]
  | .repeatStmt body untilCond => by
    rw [TypeChecker.checkStatement, TypeChecker.checkStatement, checkExpr_unmarked,
      checkStatements_unmarked body]
  | .caseStmt selector branches none => by
    simp only [TypeChecker.checkStatement, checkExpr_unmarked, checkBranches_unmarked branches]
  | .caseStmt selector branches (some stmts) => by
    simp only [TypeChecker.checkStatement, checkExpr_unmarked, checkBranches_unmarked branches,
      checkStatements_unmarked stmts]
  | .exitStmt => rfl
  | .continueStmt => rfl
  | .returnStmt value => by
    rw [TypeChecker.checkStatement, TypeChecker.checkStatement, checkOptional_unmarked]
  | .callStmt name arguments => by
    rw [TypeChecker.checkStatement, TypeChecker.checkStatement, checkArguments_unmarked,
      checkCallee_unmarked]
  | .empty => rfl
theorem checkStatements_unmarked : ∀ stmts : List Statement,
    tc.unmarked.checkStatements b stmts = tc.checkStatements b stmts
  | [] => rfl
  | stmt :: rest => by
    rw [TypeChecker.checkStatements, TypeChecker.checkStatements, checkStatement_unmarked stmt,
      checkStatements_unmarked rest]
theorem checkElsifs_unmarked : ∀ branches : List (Expression × List Statement),
    tc.unmarked.checkElsifs b branches = tc.checkElsifs b branches
  | [] => rfl
  | (condition, statements) :: rest => by
    rw [TypeChecker.checkElsifs, TypeChecker.checkElsifs, checkExpr_unmarked,
      checkStatements_unmarked statements, checkElsifs_unmarked rest]
theorem checkBranches_unmarked : ∀ branches : List (List CaseValue × List Statement),
    tc.unmarked.checkBranches b branches = tc.checkBranches b branches
  | [] => rfl
  | (values, statements) :: rest => by
    rw [TypeChecker.checkBranches, TypeChecker.checkBranches, checkStatements_unmarked statements,
      checkBranches_unmarked rest]
end

end Check

/-! ## Declaring without the flags -/

section Commuting

variable {α α' β β' γ : Type}

/-- Steps that commute with maps of their results compose. -/
theorem map_bind_of_commutes {x : Except Failure α} {x' : Except Failure α'} {g : α → α'}
    {f : α → Except Failure β} {f' : α' → Except Failure β'} {h : β → β'} (hx : x' = x.map g)
    (hf : ∀ a, f' (g a) = (f a).map h) : (x' >>= f') = (x >>= f).map h := by
  subst hx
  cases x with
  | error e => rfl
  | ok a => exact hf a

/-- The same step before steps that commute with maps of their results. -/
theorem map_bind_of_forall {x : Except Failure α} {f : α → Except Failure β}
    {f' : α → Except Failure β'} {h : β → β'} (hf : ∀ a, f' a = (f a).map h) :
    (x >>= f') = (x >>= f).map h := by
  cases x with
  | error e => rfl
  | ok a => exact hf a

/-- A fold whose steps commute with a map of the state commutes with it. -/
theorem map_foldlM_of_commutes {f : α → γ → Except Failure α} {g : α' → γ → Except Failure α'}
    {h : α → α'} {k : γ → γ} (hf : ∀ a x, g (h a) (k x) = (f a x).map h) (xs : List γ) (a : α) :
    (xs.map k).foldlM g (h a) = (xs.foldlM f a).map h := by
  induction xs generalizing a with
  | nil => rfl
  | cons x xs ih =>
    rw [List.map_cons, List.foldlM_cons, List.foldlM_cons]
    exact map_bind_of_commutes (hf a x) ih

end Commuting

section Declare

variable (b : Build)

theorem registerVariable_unmarked (tc : TypeChecker) (decl : VarDecl) (kind : VarBlockKind)
    (constant : Bool) : tc.unmarked.registerVariable b decl kind false =
      (tc.registerVariable b decl kind constant).map TypeChecker.unmarked := by
  apply map_bind_of_forall
  intro r
  apply map_bind_of_forall
  intro offset
  apply map_bind_of_forall
  intro next
  rfl

theorem registerVarBlock_unmarked (tc : TypeChecker) (block : VarBlock) :
    tc.unmarked.registerVarBlock b block.unmarked =
      (tc.registerVarBlock b block).map TypeChecker.unmarked := by
  have hfold := map_foldlM_of_commutes (k := id)
    (f := fun (tc : TypeChecker) decl => tc.registerVariable b decl block.kind block.constant)
    (g := fun (tc : TypeChecker) decl => tc.registerVariable b decl block.kind false)
    (fun tc decl => registerVariable_unmarked b tc decl block.kind block.constant)
    block.declarations tc
  rw [List.map_id] at hfold
  exact hfold

theorem registerVarBlocks_unmarked (tc : TypeChecker) (blocks : List VarBlock) :
    tc.unmarked.registerVarBlocks b (blocks.map VarBlock.unmarked) =
      (tc.registerVarBlocks b blocks).map TypeChecker.unmarked :=
  map_foldlM_of_commutes (registerVarBlock_unmarked b) blocks tc

theorem registerReturn_unmarked (tc : TypeChecker) (func : Function) :
    tc.unmarked.registerReturn b { func with vars := func.vars.map VarBlock.unmarked } =
      (tc.registerReturn b func).map TypeChecker.unmarked := by
  apply map_bind_of_forall
  intro r
  apply map_bind_of_forall
  intro next
  rfl

/-- So do the declarations and the statements of a POU, whatever is made of them. -/
theorem checkBody_unmarked {α β : Type} {vars : List VarBlock} {body : List Statement}
    {done : TypeChecker → List TypedStatement → Except Failure α}
    {done' : TypeChecker → List TypedStatement → Except Failure β} {h : α → β}
    (hdone : ∀ tc stmts, done' tc.unmarked stmts = (done tc stmts).map h) (tc : TypeChecker) :
    (tc.unmarked.registerVarBlocks b (vars.map VarBlock.unmarked) >>= fun tc =>
        tc.checkStatements b body >>= done' tc) =
      (tc.registerVarBlocks b vars >>= fun tc => tc.checkStatements b body >>= done tc).map h := by
  refine map_bind_of_commutes (registerVarBlocks_unmarked b tc vars) fun tc => ?_
  rw [checkStatements_unmarked]
  exact map_bind_of_forall fun stmts => hdone tc stmts

/-- Checking a POU commutes with clearing its flags. -/
theorem checkPou_unmarked (tc : TypeChecker) (unit : ProgramUnit) :
    tc.unmarked.checkPou b unit.unmarked =
      (tc.checkPou b unit).map (Prod.map TypedPou.unmarked TypeChecker.unmarked) := by
  cases unit with
  | program p =>
    refine map_bind_of_commutes
      (g := Prod.map (fun p => { p with symbols := p.symbols.unmarked }) TypeChecker.unmarked) ?_
      fun _ => rfl
    exact checkBody_unmarked b (fun _ _ => rfl) tc.enterPou
  | functionBlock fb =>
    refine map_bind_of_commutes
      (g := Prod.map (fun fb => { fb with symbols := fb.symbols.unmarked }) TypeChecker.unmarked) ?_
      fun _ => rfl
    exact checkBody_unmarked b (fun _ _ => rfl) tc.enterPou
  | function f =>
    refine map_bind_of_commutes
      (g := Prod.map (fun f => { f with symbols := f.symbols.unmarked }) TypeChecker.unmarked) ?_
      fun _ => rfl
    refine map_bind_of_commutes (registerReturn_unmarked b tc.enterPou f) fun tc => ?_
    exact checkBody_unmarked b (fun _ _ => rfl) tc

theorem checkPous_unmarked (units : List ProgramUnit) (tc : TypeChecker) :
    tc.unmarked.checkPous b (units.map ProgramUnit.unmarked) =
      (tc.checkPous b units).map
        (Prod.map (List.map TypedPou.unmarked) TypeChecker.unmarked) := by
  induction units generalizing tc with
  | nil => rfl
  | cons unit rest ih =>
    refine map_bind_of_commutes (checkPou_unmarked b tc unit) fun r => ?_
    exact map_bind_of_commutes (ih r.2) fun _ => rfl

/-- The flags play no part in the signatures of callables. -/
theorem collectSignature_unmarked (tc : TypeChecker) (unit : ProgramUnit) :
    tc.unmarked.collectSignature unit.unmarked = (tc.collectSignature unit).unmarked := by
  have hparams : ∀ f : Function,
      ({ f with vars := f.vars.map VarBlock.unmarked } : Function).params = f.params := by
    intro f
    rw [Function.params, Function.params, List.filter_map, List.flatMap_map]
    rfl
  cases unit with
  | program p => rfl
  | functionBlock fb => rfl
  | function f =>
    show ({ tc.unmarked with functions := (f.name, ⟨f.name, f.returnType, _, true⟩) ::
      tc.functions } : TypeChecker) = _
    rw [hparams f]
    rfl

/-- Checking commutes with clearing the flags. -/
theorem check_unmarked (ast : CompilationUnit) :
    check b ast.unmarked = (check b ast).map TypedUnit.unmarked := by
  have hcollect : ∀ (units : List ProgramUnit) (tc : TypeChecker),
      (units.map ProgramUnit.unmarked).foldl TypeChecker.collectSignature tc.unmarked =
        (units.foldl TypeChecker.collectSignature tc).unmarked := by
    intro units
    induction units with
    | nil => exact fun _ => rfl
    | cons unit rest ih =>
      intro tc
      rw [List.map_cons, List.foldl_cons, collectSignature_unmarked, ih, List.foldl_cons]
  have hpous := checkPous_unmarked b ast.units
    (ast.units.foldl TypeChecker.collectSignature TypeChecker.new)
  rw [← hcollect] at hpous
  exact map_bind_of_commutes hpous fun _ => rfl

/-- Lowering does not read the symbols. -/
theorem lower_unmarked (typed : TypedUnit) : lower typed.unmarked = lower typed := by
  have hpou : ∀ (s : IrLowerer) (pou : TypedPou), lowerPou pou.unmarked s = lowerPou pou s := by
    intro s pou
    cases pou <;> rfl
  rw [lower, lower, TypedUnit.unmarked, List.foldl_map]
  simp only [hpou]

end Declare

/-! ## Where the flags go -/

/-- Names of the variables of a POU in the order of their registration, with the flags of their
blocks; the result of a FUNCTION is no constant. -/
def ProgramUnit.marks (unit : ProgramUnit) : List (String × Bool) :=
  (match unit with
    | .function f => [(f.name, false)]
    | .program _ | .functionBlock _ => []) ++
  unit.declarations.map fun d => (d.decl.name, d.constant)

/-- Names and flags of the symbols of a scope. -/
def SymbolTable.marks (symbols : SymbolTable) : List (String × Bool) :=
  symbols.infos.map fun info => (info.name, info.constant)

theorem zipWith_symbol_marks (ds : List Declaration) (spans : List Span)
    (h : spans.length = ds.length) :
    (List.zipWith Declaration.symbol ds spans).map (fun info => (info.name, info.constant)) =
      ds.map fun d => (d.decl.name, d.constant) := by
  induction ds generalizing spans with
  | nil => rfl
  | cons d ds ih =>
    obtain ⟨span, spans, rfl⟩ := List.exists_cons_of_length_eq_add_one h
    rw [List.zipWith_cons_cons, List.map_cons, List.map_cons, ih spans (Nat.succ.inj h)]
    rfl

/-- Registration records the flag of each declaration. -/
theorem declare_marks {b : Build} {tc tc' : TypeChecker} {unit : ProgramUnit}
    (h : tc.declare b unit = .ok tc') : tc'.symbols.marks = unit.marks := by
  rw [declare_eq] at h
  obtain ⟨tc1, h1, h⟩ := bind_eq_ok.1 h
  obtain ⟨spans, -, hlayout, hvars, -⟩ := registerAll_ok h
  have hlength : spans.length = unit.declarations.length := by
    have hsizes := congrArg List.length (layoutSizes_sizes hlayout)
    simpa using hsizes
  have hmarks := zipWith_symbol_marks unit.declarations spans hlength
  -- a PROGRAM and a FUNCTION_BLOCK start without symbols, a FUNCTION with its result
  cases unit with
  | program p =>
    cases h1
    rw [SymbolTable.marks, infos_append tc'.symbols _ (hvars.trans (List.append_nil _)), hmarks]
    rfl
  | functionBlock fb =>
    cases h1
    rw [SymbolTable.marks, infos_append tc'.symbols _ (hvars.trans (List.append_nil _)), hmarks]
    rfl
  | function f =>
    obtain ⟨size, -, h1⟩ := bind_eq_ok.1 h1
    obtain ⟨next, -, h1⟩ := bind_eq_ok.1 h1
    cases h1
    let ret : SymbolInfo := ⟨f.name, f.returnType, .var, reservedBytes, size.getD 4, false⟩
    have hinfos := infos_append tc'.symbols
      (ret :: List.zipWith Declaration.symbol (ProgramUnit.function f).declarations spans) (by
        rw [hvars]
        simp [symbolEntries, TypeChecker.enterPou, SymbolTable.default, ret])
    rw [SymbolTable.marks, hinfos, List.map_cons, hmarks]
    rfl

/-- CONSTANT is recorded in the symbols of an accepted unit, and that is all: with the flags
cleared, the unit is accepted alike, its typed form differs in the flags of the symbols only, and
its module is the same. -/
theorem constant_recorded (b : Build) (ast : CompilationUnit) :
    check b ast.unmarked = (check b ast).map TypedUnit.unmarked ∧
      compile b ast.unmarked = compile b ast ∧
      ∀ typed, check b ast = .ok typed →
        List.Forall₂ (fun unit pou => pou.symbols.marks = unit.marks) ast.units typed.units := by
  refine ⟨check_unmarked b ast, ?_, ?_⟩
  · rw [compile, check_unmarked, compile]
    cases check b ast with
    | error e => rfl
    | ok typed =>
      show emit (lower typed.unmarked) = emit (lower typed)
      rw [lower_unmarked]
  · intro typed h
    refine (check_ok h).imp fun unit pou hc => ?_
    obtain ⟨tc, tc', -, hdeclare, hsymbols, -⟩ := hc
    rw [hsymbols]
    exact declare_marks hdeclare

/-! ## Assigned constants -/

/-- The variable that an assigned place belongs to. -/
def TypedExpr.owner : TypedExpr → Option String
  | .variable name .. => some name
  | .arrayAccess array .. => array.owner
  | .fieldAccess object .. => object.owner
  | .literal .. | .binary .. | .unary .. | .call .. => none

mutual
/-- Names of the variables that a statement assigns, at any depth. -/
def stmtWrites : TypedStatement → List String
  | .assignment target _ => target.owner.toList
  | .ifStmt _ thenBranch elsifBranches elseBranch =>
    stmtsWrites thenBranch ++ (elsifsWrites elsifBranches ++
      (match elseBranch with
        | some stmts => stmtsWrites stmts
        | none => []))
  | .forStmt varName _ _ _ _ body => varName :: stmtsWrites body
  | .whileStmt _ body => stmtsWrites body
  | .repeatStmt body _ => stmtsWrites body
  | .caseStmt _ branches elseBranch =>
    branchesWrites branches ++
      (match elseBranch with
        | some stmts => stmtsWrites stmts
        | none => [])
  | .exitStmt | .continueStmt | .returnStmt _ | .callStmt .. | .empty => []
/-- Names of the variables that statements assign. -/
def stmtsWrites : List TypedStatement → List String
  | [] => []
  | stmt :: rest => stmtWrites stmt ++ stmtsWrites rest
/-- Names of the variables that ELSIF branches assign. -/
def elsifsWrites : List (TypedExpr × List TypedStatement) → List String
  | [] => []
  | (_, stmts) :: rest => stmtsWrites stmts ++ elsifsWrites rest
/-- Names of the variables that CASE branches assign. -/
def branchesWrites : List (List Int × List TypedStatement) → List String
  | [] => []
  | (_, stmts) :: rest => stmtsWrites stmts ++ branchesWrites rest
end

/-- No statement assigns a variable of a CONSTANT block. -/
def ConstantsKept (typed : TypedUnit) : Prop :=
  ∀ pou ∈ typed.units, ∀ name ∈ stmtsWrites pou.body, ∀ info,
    pou.symbols.vars.lookup name = some info → info.constant = false

/-- A program with CONSTANT variables around a statement. -/
def constantUnit (stmt : Statement) : CompilationUnit :=
  ⟨[.program ⟨"Main",
    [⟨.var, true, [⟨"x", .dint, none⟩, ⟨"a", .array 0 3 .int, none⟩]⟩], [stmt]⟩]⟩

/-- The program is accepted although it assigns a constant. -/
def Overwrites (stmt : Statement) : Prop :=
  ∃ typed, check .debug (constantUnit stmt) = .ok typed ∧ ¬ ConstantsKept typed

/-- A constant is assigned directly, through an element and as the control variable of a FOR. -/
theorem constantsKept_fails :
    Overwrites (.assignment (.variable "x") (.literal (.integer 1))) ∧
      Overwrites (.assignment (.arrayAccess (.variable "a") (.literal (.integer 0)))
        (.literal (.integer 1))) ∧
      Overwrites (.forStmt "x" (.literal (.integer 0)) (.literal (.integer 3)) none []) := by
  refine ⟨⟨_, rfl, fun h => ?_⟩, ⟨_, rfl, fun h => ?_⟩, ⟨_, rfl, fun h => ?_⟩⟩
  · exact Bool.false_ne_true (h _ List.mem_cons_self "x" List.mem_cons_self _ rfl).symm
  · exact Bool.false_ne_true (h _ List.mem_cons_self "a" List.mem_cons_self _ rfl).symm
  · exact Bool.false_ne_true (h _ List.mem_cons_self "x" List.mem_cons_self _ rfl).symm

/-- The flags of the first of these programs are in its symbols. -/
theorem constant_recorded_direct : ∃ typed,
    check .debug (constantUnit (.assignment (.variable "x") (.literal (.integer 1)))) = .ok typed ∧
      List.Forall₂ (fun unit pou => pou.symbols.marks = unit.marks)
        (constantUnit (.assignment (.variable "x") (.literal (.integer 1)))).units typed.units :=
  ⟨_, rfl, (constant_recorded .debug
    (constantUnit (.assignment (.variable "x") (.literal (.integer 1))))).2.2 _ rfl⟩

end VirtualPlc.Compiler
