import VirtualPlc.Compiler.Emission
import VirtualPlc.Control.Nesting

/-!
# Lowered code is well formed

The instructions that lowering appends to a body nest: what a statement opens it closes, a
conditional has at most one second arm, jumps stay within the body, and locals are declared.
`lowered_wellFormed` says so for statements in every context and for the functions of a unit.
-/

set_option autoImplicit false

namespace VirtualPlc.Compiler

open VirtualPlc.Control

/-- What an instruction means for the nesting. -/
def Instruction.role : Instruction → Role
  | .block => .opens .block
  | .loop => .opens .loop
  | .cond => .opens .cond
  | .els => .splits
  | .fin => .closes
  | .br depth | .brIf depth => .jumps depth
  | .localGet index | .localSet index => .accesses index
  | _ => .plain

/-- The nesting of instructions. -/
def roles (is : List Instruction) : List Role := is.map Instruction.role

/-- The instructions `is` have been appended. They lead from the open constructs `before` to the
open constructs `after`, where `outer` constructs are around them. -/
structure Appended (outer : Nat) (s s' : IrLowerer) (before after : List Construct)
    (is : List Instruction) : Prop where
  body : s'.currentBody = s.currentBody ++ is
  fits : Fits outer s'.currentLocals.length before (roles is) after
  locals : s.currentLocals.length ≤ s'.currentLocals.length
  loopDepth : s'.loopDepth = s.loopDepth
  functions : s'.functions = s.functions

/-- The lowering step `f` appends instructions that lead from `before` to `after`, under at most
`outer` loops and after `declared` locals. -/
def Appends (outer declared : Nat) (f : Lower) (before after : List Construct) : Prop :=
  ∀ s, s.loopDepth ≤ outer → declared ≤ s.currentLocals.length →
    ∃ is, Appended outer s (f s) before after is

/-- The lowering step `f` closes what it opens. -/
def Keeps (f : Lower) : Prop := ∀ outer declared, Appends outer declared f [] []

section Appends

variable {outer declared : Nat} {f g : Lower} {before mid after : List Construct}

theorem Appends.comp (hf : Appends outer declared f before mid)
    (hg : Appends outer declared g mid after) :
    Appends outer declared (fun s => g (f s)) before after := by
  intro s hdepth hdeclared
  obtain ⟨a, ha⟩ := hf s hdepth hdeclared
  -- the first step has not removed a local
  have hlater : declared ≤ (f s).currentLocals.length := hdeclared.trans ha.locals
  obtain ⟨b, hb⟩ := hg (f s) (ha.loopDepth.trans_le hdepth) hlater
  refine ⟨a ++ b, ?_, ?_, ha.locals.trans hb.locals, hb.loopDepth.trans ha.loopDepth,
    hb.functions.trans ha.functions⟩
  · rw [hb.body, ha.body, List.append_assoc]
  · rw [roles, List.map_append]
    exact (ha.fits.mono (le_refl _) hb.locals).append hb.fits

theorem Appends.id : Appends outer declared id before before := by
  intro s _ _
  exact ⟨[], (List.append_nil _).symm, .nil, le_refl _, rfl, rfl⟩

theorem Appends.pushAll (is : List Instruction) (h : Fits outer declared before (roles is) after) :
    Appends outer declared (pushAll is) before after := by
  intro s _ hdeclared
  exact ⟨is, rfl, h.mono (le_refl _) hdeclared, le_refl _, rfl, rfl⟩

theorem Appends.push (i : Instruction) (h : Fits outer declared before [i.role] after) :
    Appends outer declared (push i) before after :=
  .pushAll [i] h

/-- A step that closes what it opens may stand inside more constructs. -/
theorem Keeps.under (h : Keeps f) (below : List Construct) :
    Appends outer declared f below below := by
  intro s hdepth hdeclared
  obtain ⟨is, his⟩ := h (outer + below.length) declared s (by omega) hdeclared
  exact ⟨is, his.body, his.fits.frame below, his.locals, his.loopDepth, his.functions⟩

/-- What the step appends does not depend on the context. -/
theorem Keeps.appended (h : Keeps f) (s : IrLowerer) :
    ∃ is, ∀ outer, s.loopDepth ≤ outer → Appended outer s (f s) [] [] is := by
  obtain ⟨is, his⟩ := h s.loopDepth 0 s (le_refl _) (Nat.zero_le _)
  refine ⟨is, fun outer houter => ?_⟩
  exact ⟨his.body, his.fits.mono houter (le_refl _), his.locals, his.loopDepth, his.functions⟩

/-- The body of a loop stands inside two constructs more. -/
theorem Appends.inLoop (h : Appends (outer + 2) declared f [] []) :
    Appends outer declared (fun s => leaveLoop (f (enterLoop s))) [.loop, .block]
      [.loop, .block] := by
  intro s hdepth hdeclared
  have hinside : (enterLoop s).loopDepth ≤ outer + 2 := by
    change s.loopDepth + 1 ≤ outer + 2
    omega
  -- inside, the loop and its block count as constructs around the code
  obtain ⟨is, his⟩ := h (enterLoop s) hinside hdeclared
  refine ⟨is, his.body, his.fits.frame [.loop, .block], his.locals, ?_, his.functions⟩
  change (f (enterLoop s)).loopDepth - 1 = s.loopDepth
  rw [his.loopDepth]
  rfl

theorem Keeps.comp (hf : Keeps f) (hg : Keeps g) : Keeps (fun s => g (f s)) :=
  fun outer declared => (hf outer declared).comp (hg outer declared)

theorem Keeps.id : Keeps id := fun _ _ => .id

theorem Keeps.pushAll (is : List Instruction) (h : (roles is).all (Role.flat 0 0) = true) :
    Keeps (pushAll is) :=
  fun _ declared =>
    .pushAll is ((Fits.flat h (Nat.zero_le _)).mono (le_refl _) (Nat.zero_le declared))

theorem Keeps.push (i : Instruction) (h : (roles [i]).all (Role.flat 0 0) = true) :
    Keeps (push i) :=
  .pushAll [i] h

/-- The jumps in the body of a loop go to its start or behind it. -/
theorem Appends.loopJumps (is : List Instruction)
    (h : (roles is).all (Role.flat 1 declared) = true) :
    Appends (outer + 2) declared (Compiler.pushAll is) [] [] :=
  .pushAll is (.flat h (Nat.le_add_left 1 (outer + 1)))

end Appends

/-! ## Expressions -/

theorem emitLoad_keeps (ty : DataType) (offset : Nat) : Keeps (emitLoad ty offset) := by
  cases ty <;> exact .push _ rfl

theorem emitStore_keeps (ty : DataType) : Keeps (emitStore ty) := by
  cases ty <;> exact .push _ rfl

theorem emitBinaryOp_keeps (op : BinaryOp) (ty : DataType) : Keeps (emitBinaryOp op ty) := by
  cases op <;> cases ty <;> exact .push _ rfl

theorem emitUnaryOp_keeps (op : UnaryOp) (ty : DataType) : Keeps (emitUnaryOp op ty) := by
  cases op with
  | neg => cases ty <;> exact .pushAll _ rfl
  | not => exact .pushAll _ rfl

theorem lowerLiteral_keeps (lit : TypedLiteral) : Keeps (lowerLiteral lit) := by
  cases lit with
  | integer v bits =>
    rw [lowerLiteral]
    split <;> exact .push _ rfl
  | bool v | real32 v | real64 v | time v => exact .push _ rfl

theorem lowerCall_keeps (name : String) (isUserDefined : Bool) :
    Keeps (lowerCall name isUserDefined) := by
  cases isUserDefined <;> exact .push _ rfl

mutual
theorem lowerExpr_keeps : ∀ x : TypedExpr, Keeps (lowerExpr x)
  | .literal lit _ => lowerLiteral_keeps lit
  | .variable _ offset ty => (Keeps.push _ rfl).comp (emitLoad_keeps ty (asU32 offset))
  | .arrayAccess array index _ ty =>
    ((pushAddress_keeps array).comp (lowerExpr_keeps index)).comp
      ((Keeps.pushAll _ rfl).comp (emitLoad_keeps ty 0))
  | .fieldAccess object _ fieldOffset ty =>
    (pushAddress_keeps object).comp (emitLoad_keeps ty (asU32 fieldOffset))
  | .binary left op right _ =>
    ((lowerExpr_keeps left).comp (lowerExpr_keeps right)).comp (emitBinaryOp_keeps op left.ty)
  | .unary op operand _ => (lowerExpr_keeps operand).comp (emitUnaryOp_keeps op operand.ty)
  | .call name arguments isUserDefined _ =>
    (lowerArguments_keeps arguments).comp (lowerCall_keeps name isUserDefined)
theorem pushAddress_keeps : ∀ x : TypedExpr, Keeps (pushAddress x)
  | .variable .. => .push _ rfl
  | .arrayAccess array index _ _ =>
    ((pushAddress_keeps array).comp (lowerExpr_keeps index)).comp (Keeps.pushAll _ rfl)
  | .literal .. | .fieldAccess .. | .binary .. | .unary .. | .call .. => .push _ rfl
theorem lowerArguments_keeps : ∀ xs : List TypedExpr, Keeps (lowerArguments xs)
  | [] => .id
  | x :: xs => (lowerExpr_keeps x).comp (lowerArguments_keeps xs)
end

/-! ## Statements -/

section Statements

variable {outer declared : Nat} {below : List Construct}

/-- Lowering the statements of an ELSE, if there is one, closes what it opens. -/
def ElseKeeps (els : Option Lower) : Prop := ∀ stmts, els = some stmts → Keeps stmts

/-- The second arm, if any, and the end of the innermost conditional. -/
theorem closeArm_appends {els : Option Lower} (h : ElseKeeps els) :
    Appends outer declared (closeArm els) (.cond :: below) below := by
  cases els with
  | none => exact .push .fin (.closes .cond)
  | some stmts =>
    have hels : Appends outer declared (push .els) (.cond :: below) (.els :: below) :=
      .push .els .splits
    exact (hels.comp ((h stmts rfl).under (.els :: below))).comp (.push .fin (.closes .els))

/-- The ends of nested conditionals. -/
theorem unwind_appends (n : Nat) :
    Appends outer declared (pushAll (List.replicate n .fin))
      (List.replicate n .els ++ below) below := by
  apply Appends.pushAll
  have hfits : Fits outer declared (List.replicate n .els ++ below) _ below := .unwind _
  rw [List.length_replicate] at hfits
  rw [roles, List.map_replicate]
  exact hfits

theorem caseCondition_fits {sel : Nat} (h : sel < declared) (values : List Int) :
    Fits outer declared below (roles (caseCondition sel values)) below := by
  have hflat : (roles (caseCondition sel values)).all (Role.flat 0 declared) = true := by
    cases values with
    | nil => rfl
    | cons v values =>
      simp [roles, caseCondition, caseTest, Instruction.role, Role.flat, h, List.all_flatMap]
  exact .flat hflat (Nat.zero_le _)

/-- A conditional in an arm: its condition and its first arm. -/
theorem openCond_appends {test stmts : Lower} {before : List Construct}
    (htest : Appends outer declared test before below) (hstmts : Keeps stmts) :
    Appends outer declared (fun s => stmts (push .cond (test s))) before (.cond :: below) := by
  have hcond : Appends outer declared (push .cond) below (.cond :: below) :=
    .push .cond (.opens .cond)
  exact (htest.comp hcond).comp (hstmts.under (.cond :: below))

theorem closeCase_zero_keeps {els : Option Lower} (h : ElseKeeps els) :
    Keeps (closeCase 0 els) := by
  cases els with
  | none =>
    have hs : closeCase 0 none = id := by
      funext s
      simp [closeCase]
    rw [hs]
    exact .id
  | some stmts =>
    have hs : closeCase 0 (some stmts) = stmts := by
      funext s
      simp [closeCase]
    rw [hs]
    exact h stmts rfl

/-- The end of a chain of conditionals around a second arm. -/
theorem closeChain_appends {els : Option Lower} (h : ElseKeeps els) (n : Nat) :
    Appends outer declared (fun s => pushAll (List.replicate n .fin) (closeArm els s))
      (.cond :: (List.replicate n .els ++ below)) below :=
  (closeArm_appends h).comp (unwind_appends n)

theorem openLoop_appends :
    Appends outer declared (pushAll [.block, .loop]) [] [.loop, .block] :=
  .pushAll _ ((Fits.opens .block).append (.opens .loop))

theorem closeLoop_appends : Appends outer declared (pushAll [.fin, .fin]) [.loop, .block] [] :=
  .pushAll _ ((Fits.closes .loop).append (.closes .block))

theorem lowerStep_keeps (step : Option TypedExpr) :
    Keeps (fun s => match step with
      | some e => lowerExpr e s
      | none => push (.i32Const 1) s) := by
  cases step with
  | none => exact .push _ rfl
  | some e => exact lowerExpr_keeps e

theorem lowerFor_keeps (varOffset : Nat) (start stop : TypedExpr) (step : Option TypedExpr)
    {body : Lower} (h : Keeps body) : Keeps (lowerFor varOffset start stop step body) := by
  intro outer declared
  have hinit := ((Keeps.push (.i32Const 0) rfl).comp (lowerExpr_keeps start)) outer declared
  have hopen : Appends outer declared (pushAll [.i32Store (asU32 varOffset), .block, .loop]) []
      [.loop, .block] :=
    .pushAll _ (Fits.plain.append ((Fits.opens .block).append (.opens .loop)))
  have hload := (Keeps.pushAll [.i32Const 0, .i32Load (asU32 varOffset)] rfl).comp
    (lowerExpr_keeps stop)
  have htest := (hload (outer + 2) declared).comp (.loopJumps [.i32GtS, .brIf 1] rfl)
  have hadd := (Keeps.pushAll [.i32Const 0, .i32Const 0, .i32Load (asU32 varOffset)] rfl).comp
    (lowerStep_keeps step)
  have hnext := (hadd (outer + 2) declared).comp
    (.loopJumps [.i32Add, .i32Store (asU32 varOffset), .br 0] rfl)
  have hloop := ((htest.comp (h (outer + 2) declared)).comp hnext).inLoop
  exact ((hinit.comp hopen).comp hloop).comp closeLoop_appends

theorem lowerWhile_keeps (condition : TypedExpr) {body : Lower} (h : Keeps body) :
    Keeps (lowerWhile condition body) := by
  intro outer declared
  have htest := (lowerExpr_keeps condition (outer + 2) declared).comp
    (.loopJumps [.i32Eqz, .brIf 1] rfl)
  have hloop := ((htest.comp (h (outer + 2) declared)).comp (.loopJumps [.br 0] rfl)).inLoop
  exact (openLoop_appends.comp hloop).comp closeLoop_appends

theorem lowerRepeat_keeps (untilCond : TypedExpr) {body : Lower} (h : Keeps body) :
    Keeps (lowerRepeat body untilCond) := by
  intro outer declared
  have htest := (lowerExpr_keeps untilCond (outer + 2) declared).comp
    (.loopJumps [.brIf 1, .br 0] rfl)
  have hloop := ((h (outer + 2) declared).comp htest).inLoop
  exact (openLoop_appends.comp hloop).comp closeLoop_appends

theorem lowerIf_keeps (condition : TypedExpr) {thn elsifs : Lower} {n : Nat} {els : Option Lower}
    (hthn : Keeps thn)
    (helsifs : ∀ outer declared, Appends outer declared elsifs [.cond]
      (.cond :: (List.replicate n .els ++ [])))
    (hels : ElseKeeps els) : Keeps (lowerIf condition thn elsifs n els) := by
  intro outer declared
  rw [lowerIf_eq]
  have hopen := openCond_appends (lowerExpr_keeps condition outer declared) hthn
  exact (hopen.comp (helsifs outer declared)).comp (closeChain_appends hels n)

theorem lowerCase_keeps (selector : TypedExpr) {branches : Nat → Lower} {valid : Nat}
    {els : Option Lower}
    (h : ∀ outer sel,
      Appends outer (sel + 1) (fun s => closeCase valid els (branches sel s)) [] []) :
    Keeps (lowerCase selector branches valid els) := by
  intro outer declared s hdepth _
  -- the selector's local is the one just allocated
  let sel := s.currentLocals.length
  let s' := allocTempLocal .i32 s
  have hlength : s'.currentLocals.length = sel + 1 := List.length_append
  have hset : Appends outer (sel + 1) (push (.localSet sel)) [] [] :=
    .push (.localSet sel) (.access (Nat.lt_succ_self sel))
  have hchain := ((lowerExpr_keeps selector outer (sel + 1)).comp hset).comp (h outer sel)
  obtain ⟨is, his⟩ := hchain s' hdepth hlength.ge
  refine ⟨is, his.body, his.fits, ?_, his.loopDepth, his.functions⟩
  exact (Nat.le_succ sel).trans (hlength.ge.trans his.locals)

theorem ElseKeeps.none : ElseKeeps none := by
  intro stmts heq
  cases heq

theorem ElseKeeps.some {stmts : Lower} (h : Keeps stmts) : ElseKeeps (some stmts) := by
  intro stmts' heq
  cases heq
  exact h

mutual
theorem lowerStatement_keeps : ∀ x : TypedStatement, Keeps (lowerStatement x)
  | .assignment target value =>
    ((pushAddress_keeps target).comp (lowerExpr_keeps value)).comp (emitStore_keeps target.ty)
  | .ifStmt condition thenBranch elsifBranches none =>
    lowerIf_keeps condition (lowerStatements_keeps thenBranch)
      (fun _ _ => lowerElsifs_appends elsifBranches) .none
  | .ifStmt condition thenBranch elsifBranches (some stmts) =>
    lowerIf_keeps condition (lowerStatements_keeps thenBranch)
      (fun _ _ => lowerElsifs_appends elsifBranches) (.some (lowerStatements_keeps stmts))
  | .forStmt _ varOffset start stop step body =>
    lowerFor_keeps varOffset start stop step (lowerStatements_keeps body)
  | .whileStmt condition body => lowerWhile_keeps condition (lowerStatements_keeps body)
  | .repeatStmt body untilCond => lowerRepeat_keeps untilCond (lowerStatements_keeps body)
  | .caseStmt selector branches none =>
    lowerCase_keeps selector fun _ _ => lowerBranches_first_appends branches .none
  | .caseStmt selector branches (some stmts) =>
    lowerCase_keeps selector fun _ _ =>
      lowerBranches_first_appends branches (.some (lowerStatements_keeps stmts))
  | .exitStmt => by
    intro outer declared s hdepth
    -- an EXIT leaves as many constructs as there are loops around it
    have hjump : Fits outer declared [] [.jumps s.loopDepth] [] := .jump hdepth
    exact Appends.push (.br s.loopDepth) hjump s hdepth
  | .continueStmt => fun _ _ => .push (.br 0) (.jump (Nat.zero_le _))
  | .returnStmt none => .push .ret rfl
  | .returnStmt (some x) => (lowerExpr_keeps x).comp (Keeps.push .ret rfl)
  | .callStmt name arguments isUserDefined =>
    ((lowerArguments_keeps arguments).comp (lowerCall_keeps name isUserDefined)).comp
      (Keeps.push .drop rfl)
  | .empty => .id
theorem lowerStatements_keeps : ∀ xs : List TypedStatement, Keeps (lowerStatements xs)
  | [] => .id
  | x :: xs => (lowerStatement_keeps x).comp (lowerStatements_keeps xs)
/-- Each ELSIF opens a conditional in the second arm of the one before it. -/
theorem lowerElsifs_appends : ∀ (xs : List (TypedExpr × List TypedStatement))
    {outer declared : Nat} {below : List Construct},
      Appends outer declared (lowerElsifs xs) (.cond :: below)
        (.cond :: (List.replicate xs.length .els ++ below))
  | [], _, _, _ => .id
  | (condition, stmts) :: rest, outer, declared, below => by
    have hels : Appends outer declared (push .els) (.cond :: below) (.els :: below) :=
      .push .els .splits
    have htest := hels.comp ((lowerExpr_keeps condition).under (.els :: below))
    have harm := openCond_appends htest (lowerStatements_keeps stmts)
    have hchain := harm.comp (lowerElsifs_appends rest)
    rw [List.length_cons, List.replicate_succ', List.append_assoc]
    exact hchain
/-- So does each branch of a CASE that has a label. -/
theorem lowerBranches_appends : ∀ (xs : List (List Int × List TypedStatement))
    {outer declared sel : Nat} {below : List Construct}, sel < declared →
      Appends outer declared (lowerBranches xs false sel) (.cond :: below)
        (.cond :: (List.replicate (validBranches xs) .els ++ below))
  | [], _, _, _, _, _ => .id
  | ([], _) :: rest, _, _, _, _, h => lowerBranches_appends rest h
  | (v :: vs, stmts) :: rest, outer, declared, sel, below, h => by
    have hels : Appends outer declared (push .els) (.cond :: below) (.els :: below) :=
      .push .els .splits
    have htest := hels.comp (.pushAll _ (caseCondition_fits h (v :: vs)))
    have harm := openCond_appends htest (lowerStatements_keeps stmts)
    have hchain := harm.comp (lowerBranches_appends rest h)
    rw [validBranches_cons, List.replicate_succ', List.append_assoc]
    simp only [lowerBranches, pushAll_append, pushAll_singleton]
    exact hchain
/-- The first of them opens the chain, and the CASE closes it. -/
theorem lowerBranches_first_appends : ∀ (xs : List (List Int × List TypedStatement))
    {outer sel : Nat} {els : Option Lower}, ElseKeeps els →
      Appends outer (sel + 1)
        (fun s => closeCase (validBranches xs) els (lowerBranches xs true sel s)) [] []
  | [], outer, sel, _, h => closeCase_zero_keeps h outer (sel + 1)
  | ([], _) :: rest, _, _, _, h => lowerBranches_first_appends rest h
  | (v :: vs, stmts) :: rest, outer, sel, els, h => by
    have hsel : sel < sel + 1 := Nat.lt_succ_self sel
    have htest : Appends outer (sel + 1) (pushAll (caseCondition sel (v :: vs))) [] [] :=
      .pushAll _ (caseCondition_fits hsel (v :: vs))
    have harm := openCond_appends htest (lowerStatements_keeps stmts)
    have hchain := (harm.comp (lowerBranches_appends rest hsel)).comp (closeChain_appends h _)
    simp only [lowerBranches, validBranches_cons, closeCase_succ, pushAll_append, pushAll_singleton]
    exact hchain
end

end Statements

/-! ## Units -/

/-- The body of a function nests, and nothing is around it. -/
def IrFunction.WellFormed (f : IrFunction) : Prop := Fits 0 f.locals.length [] (roles f.body) []

/-- Between two POUs the lowerer is in no loop, and its functions are well formed. -/
structure IrLowerer.Clean (s : IrLowerer) : Prop where
  loopDepth : s.loopDepth = 0
  functions : ∀ f ∈ s.functions, f.WellFormed

theorem IrLowerer.Clean.lowerBody {s : IrLowerer} (h : s.Clean) (name : String) (isStep : Bool)
    (body : List TypedStatement) : (lowerBody name isStep body s).Clean := by
  let s₀ : IrLowerer := { s with currentBody := [], currentLocals := [] }
  obtain ⟨is, his⟩ := lowerStatements_keeps body 0 0 s₀ h.loopDepth.le (Nat.zero_le _)
  have hbody : (lowerStatements body s₀).currentBody = is := his.body
  constructor
  · exact his.loopDepth.trans h.loopDepth
  · intro f hmem
    have hfunctions : (lowerStatements body s₀).functions = s.functions := his.functions
    change f ∈ (lowerStatements body s₀).functions ++ [_] at hmem
    rw [hfunctions] at hmem
    rcases List.mem_append.mp hmem with hmem | hmem
    · exact h.functions f hmem
    · rw [List.mem_singleton.mp hmem, IrFunction.WellFormed, hbody]
      exact his.fits

theorem IrLowerer.Clean.lowerPou {s : IrLowerer} (h : s.Clean) (pou : TypedPou) :
    (lowerPou pou s).Clean := by
  cases pou with
  | program p => exact h.lowerBody "step" true p.body
  | functionBlock fb => exact h.lowerBody fb.name false fb.body
  | function func => exact h.lowerBody func.name false func.body

theorem lower_clean {s : IrLowerer} (h : s.Clean) (pous : List TypedPou) :
    (pous.foldl (fun s pou => lowerPou pou s) s).Clean := by
  induction pous generalizing s with
  | nil => exact h
  | cons pou rest ih => exact ih (h.lowerPou pou)

/-- Statements append code that nests and restore the number of loops, in every context of at least
as many constructs as loops. The body of a function nests by itself. -/
theorem lowered_wellFormed :
    (∀ (stmt : TypedStatement) (s : IrLowerer), ∃ is, ∀ outer, s.loopDepth ≤ outer →
      Appended outer s (lowerStatement stmt s) [] [] is) ∧
    (∀ (stmts : List TypedStatement) (s : IrLowerer), ∃ is, ∀ outer, s.loopDepth ≤ outer →
      Appended outer s (lowerStatements stmts s) [] [] is) ∧
    ∀ (typed : TypedUnit), ∀ f ∈ (lower typed).functions, f.WellFormed := by
  refine ⟨fun stmt => (lowerStatement_keeps stmt).appended,
    fun stmts => (lowerStatements_keeps stmts).appended, ?_⟩
  intro typed
  have hnew : IrLowerer.new.Clean := by
    constructor
    · rfl
    · intro f hmem
      cases hmem
  exact (lower_clean hnew typed.units).functions

end VirtualPlc.Compiler
