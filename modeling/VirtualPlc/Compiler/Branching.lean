import VirtualPlc.Compiler.Access
import VirtualPlc.Compiler.Emission
import VirtualPlc.Control.IfChain

/-!
# IF and CASE

The nests of conditionals that `lower_if` and `lower_case` emit are chains. An IF runs the arm of
its first true condition (`lowerIf_runs`). A CASE compares the low 32 bits of its labels, which are
64 bits wide, with its selector, and so runs the branch it should exactly as long as no label with
the same low bits comes before the selector's own (`caseMeant_iff`).
-/

set_option autoImplicit false

namespace VirtualPlc.Compiler

open VirtualPlc.Word VirtualPlc.Wasm VirtualPlc.Control

/-! ## IF -/

/-- Conditions and arms of an IF, as they are emitted. -/
def ifArms (link : String → Bool → Nat) :
    List (TypedExpr × List TypedStatement) → Nat → Nat → List (PlcCode × PlcCode)
  | [], _, _ => []
  | (condition, stmts) :: rest, depth, base =>
    (strip (exprCode link condition), strip (stmtsCode link stmts depth base)) ::
      ifArms link rest depth (base + stmtsLocals stmts)

/-- The ELSE of an IF or a CASE, as it is emitted. -/
def elseCode (link : String → Bool → Nat) (elseBranch : Option (List TypedStatement))
    (depth base : Nat) : Option PlcCode :=
  elseBranch.map fun stmts => strip (stmtsCode link stmts depth base)

/-- A run of `code` that does not stop leaves one `i32` on the operands of its start. -/
def PushesI32 (env : Env Bounds) (n : Nat) (code : PlcCode) : Prop :=
  ∀ s s', execSeq (machine env) n code s = .normal s' →
    ∃ x : BitVec 32, s'.stack = .i32 x :: s.stack

theorem PushesI32.pushesTruth {env : Env Bounds} {n : Nat} {code : PlcCode}
    (h : PushesI32 env n code) : PushesTruth (machine env) n code := by
  intro s s' hs
  obtain ⟨x, hx⟩ := h s s' hs
  obtain ⟨st, l, mem⟩ := s'
  cases hx
  exact ⟨x != 0, ⟨s.stack, l, mem⟩, rfl, rfl⟩

theorem strip_condCode (thn : PlcCode) (els : Option PlcCode) :
    (condCode thn els).strip = [conditional (strip thn) (els.map strip)] := by
  cases els <;> rfl

theorem elsifsCode_strip (link : String → Bool → Nat) (depth : Nat) (els : Option PlcCode) :
    ∀ (branches : List (TypedExpr × List TypedStatement)) (base : Nat),
      (elsifsCode link branches depth base els).map strip =
        ifChain (ifArms link branches depth base) (els.map strip)
  | [], _ => rfl
  | (condition, stmts) :: rest, base => by
    have ih := elsifsCode_strip link depth els rest (base + stmtsLocals stmts)
    rw [elsifsCode, ifArms, ifChain, ← ih, Option.map_some, strip_append, strip_cons, strip_nil,
      List.append_nil, strip_condCode]

theorem ifStmt_strip (link : String → Bool → Nat) (condition : TypedExpr)
    (thenBranch : List TypedStatement) (elsifBranches : List (TypedExpr × List TypedStatement))
    (elseBranch : Option (List TypedStatement)) (depth base : Nat) :
    strip (stmtCode link (.ifStmt condition thenBranch elsifBranches elseBranch) depth base) =
      (ifChain (ifArms link ((condition, thenBranch) :: elsifBranches) depth base)
        (elseCode link elseBranch depth
          (base + elsifsLocals ((condition, thenBranch) :: elsifBranches)))).getD [] := by
  cases elseBranch with
  | none =>
    simp [stmtCode, strip_condCode, elsifsCode_strip, ifArms, ifChain, elseCode]
  | some stmts =>
    simp [stmtCode, strip_condCode, elsifsCode_strip, ifArms, ifChain, elseCode, elsifsLocals,
      Nat.add_assoc]

/-- What `lower_if` emits evaluates the conditions in source order up to the first true one and runs
its arm, or the ELSE when none is true, inside the conditionals that are open there. -/
theorem lowerIf_runs (e : WasmEmitter) (condition : TypedExpr) (thenBranch : List TypedStatement)
    (elsifBranches : List (TypedExpr × List TypedStatement))
    (elseBranch : Option (List TypedStatement)) (lowerer : IrLowerer) {tree : PlcCode}
    (htree : e.treeOf (lowerStatement (.ifStmt condition thenBranch elsifBranches elseBranch))
      lowerer = some tree)
    (env : Env Bounds) (n : Nat)
    (hconditions : ∀ c ∈ condition :: elsifBranches.map (·.1),
      PushesI32 env n (strip (exprCode e.link c))) (s : State) :
    execSeq (machine env) n tree s =
      firstArm (machine env) n (fun s' => { s' with stack := s.stack })
        (elseCode e.link elseBranch lowerer.loopDepth (lowerer.currentLocals.length +
          elsifsLocals ((condition, thenBranch) :: elsifBranches)))
        (ifArms e.link ((condition, thenBranch) :: elsifBranches) lowerer.loopDepth
          lowerer.currentLocals.length) 0 s := by
  obtain ⟨-, rfl⟩ := ((lowerStatement_emits _).treeOf_iff lowerer tree).mp htree
  rw [ifStmt_strip]
  apply execSeq_ifChain
  have harms : ∀ (branches : List (TypedExpr × List TypedStatement)) (base : Nat),
      ∀ arm ∈ ifArms e.link branches lowerer.loopDepth base,
        ∃ c ∈ branches.map (·.1), arm.1 = strip (exprCode e.link c) := by
    intro branches
    induction branches with
    | nil => intro base arm harm; cases harm
    | cons branch rest ih =>
      intro base arm harm
      rw [ifArms] at harm
      rcases List.mem_cons.mp harm with rfl | hrest
      · exact ⟨branch.1, by simp, rfl⟩
      · obtain ⟨c, hc, heq⟩ := ih _ arm hrest
        exact ⟨c, List.mem_cons_of_mem _ hc, heq⟩
  intro arm harm
  obtain ⟨c, hc, heq⟩ := harms _ _ arm harm
  rw [heq]
  exact (hconditions c hc).pushesTruth

/-- A truth value as a condition. -/
def boolLiteral (v : Bool) : TypedExpr := .literal (.bool v) .bool

theorem pushesI32_boolLiteral (link : String → Bool → Nat) (v : Bool) (env : Env Bounds) (n : Nat) :
    PushesI32 env n (strip (exprCode link (boolLiteral v))) := by
  intro s s' hs
  cases hs
  exact ⟨_, rfl⟩

/-- `IF FALSE THEN ELSIF TRUE THEN RETURN; ELSE EXIT; END_IF` returns. -/
theorem lowerIf_runs_elsif : ∃ tree,
    (WasmEmitter.mk [] []).treeOf (lowerStatement (.ifStmt (boolLiteral false) []
      [(boolLiteral true, [.returnStmt none])] (some [.exitStmt]))) .new = some tree ∧
      execSeq (machine bareEnv) 0 tree ⟨[], [], .zeroed 0⟩ = .ret ⟨[], [], .zeroed 0⟩ := by
  refine ⟨_, ((lowerStatement_emits _).treeOf_iff _ _).mpr ⟨rfl, rfl⟩, ?_⟩
  refine lowerIf_runs ⟨[], []⟩ (boolLiteral false) [] [(boolLiteral true, [.returnStmt none])]
    (some [.exitStmt]) .new (((lowerStatement_emits _).treeOf_iff _ _).mpr ⟨rfl, rfl⟩) bareEnv 0
    ?_ ⟨[], [], .zeroed 0⟩
  intro c hc
  rcases List.mem_cons.mp hc with rfl | hc
  · exact pushesI32_boolLiteral _ false _ _
  · rw [List.mem_singleton.mp hc]
    exact pushesI32_boolLiteral _ true _ _

/-! ## CASE -/

/-- A label of the branch has the low 32 bits of `v`. -/
def hits (v : BitVec 32) (labels : List Int) : Bool := labels.any fun y => v == BitVec.ofInt 32 y

/-- Runs the arm of the first branch whose labels pass `test`, or `els` when none do; `k`
conditionals are open at the start. A branch without labels has no conditional. -/
def runCase (env : Env Bounds) (n : Nat) (st : List Value) (test : List Int → Bool)
    (els : Option PlcCode) : List (List Int × PlcCode) → Nat → State → Outcome Fault State
  | [], k, s =>
    match els with
    | some els => (execSeq (machine env) n els s).cross (fun s' => { s' with stack := st }) k
    | none => .normal s
  | ([], _) :: rest, k, s => runCase env n st test els rest k s
  | (y :: ys, arm) :: rest, k, s =>
    if test (y :: ys) then
      (execSeq (machine env) n arm s).cross (fun s' => { s' with stack := st }) (k + 1)
    else runCase env n st test els rest (k + 1) s

/-- Labels and arms of a CASE, as they are emitted. -/
def caseArms (link : String → Bool → Nat) :
    List (List Int × List TypedStatement) → Nat → Nat → List (List Int × PlcCode)
  | [], _, _ => []
  | ([], _) :: rest, depth, base => ([], []) :: caseArms link rest depth base
  | (y :: ys, stmts) :: rest, depth, base =>
    (y :: ys, strip (stmtsCode link stmts depth base)) ::
      caseArms link rest depth (base + stmtsLocals stmts)

/-- The branches that have labels, with the comparisons that are emitted for them. -/
def caseChain (sel : Nat) : List (List Int × PlcCode) → List (PlcCode × PlcCode)
  | [] => []
  | ([], _) :: rest => caseChain sel rest
  | (y :: ys, arm) :: rest => (ops (caseConditionOps sel (y :: ys)), arm) :: caseChain sel rest

theorem branchesCode_strip (link : String → Bool → Nat) (depth sel : Nat) (els : Option PlcCode) :
    ∀ (branches : List (List Int × List TypedStatement)) (base : Nat),
      (branchesCode link branches depth base sel els).map strip =
        ifChain (caseChain sel (caseArms link branches depth base)) (els.map strip)
  | [], _ => rfl
  | ([], _) :: rest, base => branchesCode_strip link depth sel els rest base
  | (y :: ys, stmts) :: rest, base => by
    have ih := branchesCode_strip link depth sel els rest (base + stmtsLocals stmts)
    rw [branchesCode, caseArms, caseChain, ifChain, ← ih, Option.map_some, strip_append, strip_cons,
      strip_nil, List.append_nil, strip_condCode, strip_ops]

section Comparisons

variable (env : Env Bounds) (n : Nat) {sel : Nat} {v : BitVec 32} {st l : List Value} {mem : Memory}

theorem execSeq_caseTest (hsel : l[sel]? = some (.i32 v)) (y : Int) (os : List Op) :
    execSeq (machine env) n (ops (caseTestOps sel y ++ os)) ⟨st, l, mem⟩ =
      execSeq (machine env) n (ops os) ⟨boolValue (v == BitVec.ofInt 32 y) :: st, l, mem⟩ := by
  have hget : stepOp env (.localGet sel) ⟨st, l, mem⟩ = .normal ⟨.i32 v :: st, l, mem⟩ := by
    rw [stepOp]
    dsimp only
    rw [hsel]
    rfl
  show ((machine env).step (.localGet sel) ⟨st, l, mem⟩).andThen _ = _
  rw [machine_step, hget]
  rfl

theorem execSeq_or (a b : Bool) (os : List Op) :
    execSeq (machine env) n (ops (.i32Bin .or :: os)) ⟨boolValue b :: boolValue a :: st, l, mem⟩ =
      execSeq (machine env) n (ops os) ⟨boolValue (a || b) :: st, l, mem⟩ := by
  cases a <;> cases b <;> rfl

/-- The comparisons of the further labels add to the one before them. -/
theorem execSeq_caseTests (hsel : l[sel]? = some (.i32 v)) (b : Bool) (ys : List Int) :
    execSeq (machine env) n
        (ops (ys.flatMap fun w => caseTestOps sel w ++ [.i32Bin .or])) ⟨boolValue b :: st, l, mem⟩ =
      .normal ⟨boolValue (b || hits v ys) :: st, l, mem⟩ := by
  induction ys generalizing b with
  | nil => simp [hits]
  | cons y ys ih =>
    rw [List.flatMap_cons, List.append_assoc, execSeq_caseTest env n hsel, List.singleton_append,
      execSeq_or, ih, hits, hits, List.any_cons, Bool.or_assoc]

/-- A branch is tested for a label with the bits of the selector. -/
theorem execSeq_caseCondition (hsel : l[sel]? = some (.i32 v)) (y : Int) (ys : List Int) :
    execSeq (machine env) n (ops (caseConditionOps sel (y :: ys))) ⟨st, l, mem⟩ =
      .normal ⟨boolValue (hits v (y :: ys)) :: st, l, mem⟩ := by
  rw [caseConditionOps, execSeq_caseTest env n hsel, execSeq_caseTests env n hsel]
  rfl

/-- The comparisons either stop or leave a truth value. -/
theorem pushesI32_caseCondition (sel : Nat) (y : Int) (ys : List Int) :
    PushesI32 env n (ops (caseConditionOps sel (y :: ys))) := by
  rintro ⟨st, l, mem⟩ s' hs
  have hstop : ∀ o : Outcome Fault State, stepOp env (.localGet sel) ⟨st, l, mem⟩ = o →
      execSeq (machine env) n (ops (caseConditionOps sel (y :: ys))) ⟨st, l, mem⟩ =
        o.andThen (execSeq (machine env) n (ops (.const (.i32 (BitVec.ofInt 32 y)) :: .i32Rel .eq ::
          ys.flatMap fun w => caseTestOps sel w ++ [.i32Bin .or]))) := by
    rintro _ rfl
    rfl
  cases hsel : l[sel]? with
  | none =>
    rw [hstop (.abort .stuck) (by rw [stepOp]; dsimp only; rw [hsel])] at hs
    cases hs
  | some w =>
    have hget : stepOp env (.localGet sel) ⟨st, l, mem⟩ = .normal ⟨w :: st, l, mem⟩ := by
      rw [stepOp]
      dsimp only
      rw [hsel]
      rfl
    cases w with
    | i32 v =>
      rw [execSeq_caseCondition env n hsel] at hs
      cases hs
      exact ⟨_, rfl⟩
    | i64 v =>
      rw [hstop _ hget] at hs
      cases hs
    | f32 v =>
      rw [hstop _ hget] at hs
      cases hs
    | f64 v =>
      rw [hstop _ hget] at hs
      cases hs

/-- The chain of a CASE runs the first branch with a label that has the bits of the selector. -/
theorem firstArm_caseChain (els : Option PlcCode) (arms : List (List Int × PlcCode)) (k : Nat)
    (hsel : l[sel]? = some (.i32 v)) :
    firstArm (machine env) n (fun s' => { s' with stack := st }) els (caseChain sel arms) k
        ⟨st, l, mem⟩ =
      runCase env n st (hits v) els arms k ⟨st, l, mem⟩ := by
  induction arms generalizing k with
  | nil => cases els <;> rfl
  | cons branch rest ih =>
    obtain ⟨labels, arm⟩ := branch
    cases labels with
    | nil => exact ih k
    | cons y ys =>
      rw [caseChain, firstArm, execSeq_caseCondition env n hsel, runCase]
      cases hits v (y :: ys) with
      | true => rfl
      | false => exact ih (k + 1)

end Comparisons

/-- The state in which a CASE decides: the selector is off the stack and in its temporary. -/
def caseState (s s' : State) (sel : Nat) (v : BitVec 32) : State :=
  ⟨s.stack, s'.locals.set sel (.i32 v), s'.mem⟩

/-- What `lower_case` emits evaluates its selector once and then compares bits. -/
theorem lowerCase_runs (e : WasmEmitter) (selector : TypedExpr)
    (branches : List (List Int × List TypedStatement)) (elseBranch : Option (List TypedStatement))
    (lowerer : IrLowerer) {tree : PlcCode}
    (htree : e.treeOf (lowerStatement (.caseStmt selector branches elseBranch)) lowerer = some tree)
    (env : Env Bounds) (n : Nat) {s s' : State} {v : BitVec 32}
    (hselector : execSeq (machine env) n (strip (exprCode e.link selector)) s = .normal s')
    (hvalue : s'.stack = .i32 v :: s.stack)
    (htemp : lowerer.currentLocals.length < s'.locals.length) :
    execSeq (machine env) n tree s =
      runCase env n s.stack (hits v)
        (elseCode e.link elseBranch lowerer.loopDepth
          (lowerer.currentLocals.length + 1 + branchesLocals branches))
        (caseArms e.link branches lowerer.loopDepth (lowerer.currentLocals.length + 1)) 0
        (caseState s s' lowerer.currentLocals.length v) := by
  obtain ⟨-, rfl⟩ := ((lowerStatement_emits _).treeOf_iff lowerer tree).mp htree
  obtain ⟨st, l, mem⟩ := s'
  subst hvalue
  have hstrip : strip (stmtCode e.link (.caseStmt selector branches elseBranch) lowerer.loopDepth
      lowerer.currentLocals.length) = strip (exprCode e.link selector) ++
        (ops [.localSet lowerer.currentLocals.length] ++
          (ifChain (caseChain lowerer.currentLocals.length
            (caseArms e.link branches lowerer.loopDepth (lowerer.currentLocals.length + 1)))
            (elseCode e.link elseBranch lowerer.loopDepth
              (lowerer.currentLocals.length + 1 + branchesLocals branches))).getD []) := by
    have hget : ∀ code : Option PlcCode, strip (code.getD []) = (code.map strip).getD [] := by
      rintro (_ | code) <;> rfl
    cases elseBranch with
    | none => simp [stmtCode, hget, branchesCode_strip, elseCode]
    | some stmts => simp [stmtCode, hget, branchesCode_strip, elseCode]
  -- the selector is stored in a fresh local, which each comparison reads
  have hset : stepOp env (.localSet lowerer.currentLocals.length) ⟨.i32 v :: s.stack, l, mem⟩ =
      .normal ⟨s.stack, l.set lowerer.currentLocals.length (.i32 v), mem⟩ := by
    rw [stepOp, State.pop_cons]
    exact if_pos htemp
  have hread : (l.set lowerer.currentLocals.length (.i32 v))[lowerer.currentLocals.length]? =
      some (.i32 v) := List.getElem?_set_self htemp
  rw [hstrip, execSeq_append, hselector, Outcome.andThen_normal, execSeq_append, execSeq_ops_cons,
    machine_step, hset, Outcome.andThen_normal, execSeq_ops_nil, Outcome.andThen_normal,
    execSeq_ifChain, caseState]
  · exact firstArm_caseChain env n _ _ 0 hread
  · -- every link of the chain tests with comparisons
    generalize caseArms e.link branches lowerer.loopDepth (lowerer.currentLocals.length + 1) = arms
    induction arms with
    | nil => intro branch hb; cases hb
    | cons arm rest ih =>
      obtain ⟨labels, code⟩ := arm
      cases labels with
      | nil => exact ih
      | cons y ys =>
        intro branch hb
        rcases List.mem_cons.mp hb with rfl | hrest
        · exact (pushesI32_caseCondition env n _ y ys).pushesTruth
        · exact ih branch hrest

/-- For a selector of value `x` and branches with the given labels, whatever their bodies: the CASE
runs the first branch one of whose labels is `x`, or the ELSE. -/
def CaseMeant (x : Int) (labels : List (List Int)) : Prop :=
  ∀ (e : WasmEmitter) (selector : TypedExpr) (bodies : List (List TypedStatement))
    (elseBranch : Option (List TypedStatement)) (lowerer : IrLowerer) (tree : PlcCode),
    bodies.length = labels.length →
    e.treeOf (lowerStatement (.caseStmt selector (labels.zip bodies) elseBranch)) lowerer =
      some tree →
    ∀ (env : Env Bounds) (n : Nat) (s s' : State),
      execSeq (machine env) n (strip (exprCode e.link selector)) s = .normal s' →
      s'.stack = .i32 (BitVec.ofInt 32 x) :: s.stack →
      lowerer.currentLocals.length < s'.locals.length →
      execSeq (machine env) n tree s =
        runCase env n s.stack (fun ls => decide (x ∈ ls))
          (elseCode e.link elseBranch lowerer.loopDepth
            (lowerer.currentLocals.length + 1 + branchesLocals (labels.zip bodies)))
          (caseArms e.link (labels.zip bodies) lowerer.loopDepth
            (lowerer.currentLocals.length + 1)) 0
          (caseState s s' lowerer.currentLocals.length (BitVec.ofInt 32 x))

/-- A branch with a label that has the low 32 bits of `x`, but without `x`, comes after one with
`x`. -/
def LabelsApart (x : Int) (labels : List (List Int)) : Prop :=
  ∀ before ls after, labels = before ++ ls :: after →
    hits (BitVec.ofInt 32 x) ls = true → x ∉ ls → ∃ ls' ∈ before, x ∈ ls'

theorem hits_of_mem {x : Int} {ls : List Int} (h : x ∈ ls) : hits (BitVec.ofInt 32 x) ls = true :=
  List.any_eq_true.mpr ⟨x, h, beq_self_eq_true _⟩

theorem labelsApart_nil (x : Int) : LabelsApart x [] := by
  intro before ls after heq
  simp at heq

theorem labelsApart_cons {x : Int} {ls : List Int} {rest : List (List Int)} :
    LabelsApart x (ls :: rest) ↔
      x ∈ ls ∨ hits (BitVec.ofInt 32 x) ls = false ∧ LabelsApart x rest := by
  constructor
  · intro h
    by_cases hx : x ∈ ls
    · exact .inl hx
    · refine .inr ⟨?_, fun before ls' after heq hhit hnot => ?_⟩
      · cases hhit : hits (BitVec.ofInt 32 x) ls with
        | false => rfl
        | true =>
          obtain ⟨ls', hmem, -⟩ := h [] ls rest rfl hhit hx
          cases hmem
      · obtain ⟨found, hfound, hin⟩ := h (ls :: before) ls' after (by rw [heq]; rfl) hhit hnot
        rcases List.mem_cons.mp hfound with rfl | hbefore
        · exact absurd hin hx
        · exact ⟨found, hbefore, hin⟩
  · rintro (hx | ⟨hmiss, hrest⟩) before ls' after heq hhit hnot
    · cases before with
      | nil =>
        obtain ⟨rfl, -⟩ := List.cons.inj heq
        exact absurd hx hnot
      | cons first before =>
        obtain ⟨rfl, -⟩ := List.cons.inj heq
        exact ⟨ls, List.mem_cons_self, hx⟩
    · cases before with
      | nil =>
        obtain ⟨rfl, -⟩ := List.cons.inj heq
        exact absurd (hmiss.symm.trans hhit) Bool.false_ne_true
      | cons first before =>
        obtain ⟨rfl, hsplit⟩ := List.cons.inj heq
        obtain ⟨found, hfound, hin⟩ := hrest before ls' after hsplit hhit hnot
        exact ⟨found, List.mem_cons_of_mem _ hfound, hin⟩

theorem caseArms_labels (link : String → Bool → Nat) (depth : Nat) :
    ∀ (branches : List (List Int × List TypedStatement)) (base : Nat),
      (caseArms link branches depth base).map (·.1) = branches.map (·.1)
  | [], _ => rfl
  | ([], _) :: rest, base => congrArg ([] :: ·) (caseArms_labels link depth rest base)
  | (y :: ys, _) :: rest, _ => congrArg ((y :: ys) :: ·) (caseArms_labels link depth rest _)

/-- Where the labels are apart, the comparison of bits finds the branch of the value. -/
theorem LabelsApart.runCase_eq {x : Int} {arms : List (List Int × PlcCode)}
    (h : LabelsApart x (arms.map (·.1))) (env : Env Bounds) (n : Nat) (st : List Value)
    (els : Option PlcCode) (k : Nat) (s : State) :
    runCase env n st (hits (BitVec.ofInt 32 x)) els arms k s =
      runCase env n st (fun ls => decide (x ∈ ls)) els arms k s := by
  induction arms generalizing k with
  | nil => rfl
  | cons branch rest ih =>
    obtain ⟨labels, arm⟩ := branch
    cases labels with
    | nil =>
      rcases labelsApart_cons.mp h with hx | ⟨-, hrest⟩
      · cases hx
      · exact ih hrest k
    | cons y ys =>
      rw [runCase, runCase]
      by_cases hx : x ∈ y :: ys
      · rw [if_pos (hits_of_mem hx), if_pos (decide_eq_true hx)]
      · rcases labelsApart_cons.mp h with hin | ⟨hmiss, hrest⟩
        · exact absurd hin hx
        · rw [hmiss, decide_eq_false hx]
          exact ih hrest (k + 1)

/-- Bodies that tell the first branch with the bits of `x` from the others: it returns, they do
nothing. -/
def markFirst (x : Int) : List (List Int) → List (List TypedStatement)
  | [] => []
  | ls :: rest =>
    if hits (BitVec.ofInt 32 x) ls then [.returnStmt none] :: rest.map fun _ => []
    else [] :: markFirst x rest

theorem length_markFirst (x : Int) (labels : List (List Int)) :
    (markFirst x labels).length = labels.length := by
  induction labels with
  | nil => rfl
  | cons ls rest ih =>
    rw [markFirst]
    split
    · simp
    · simp [ih]

section Marking

variable (env : Env Bounds) (link : String → Bool → Nat) (n : Nat) (st : List Value) (depth : Nat)

theorem runCase_empty (test : List Int → Bool) (labels : List (List Int)) (base k : Nat)
    (s : State) :
    runCase env n st test none
      (caseArms link (labels.zip (labels.map fun _ => [])) depth base) k s = .normal s := by
  induction labels generalizing base k with
  | nil => rfl
  | cons ls rest ih =>
    cases ls with
    | nil => exact ih base k
    | cons y ys =>
      rw [List.map_cons, List.zip_cons_cons, caseArms, runCase]
      split
      · rfl
      · exact ih _ (k + 1)

/-- If even the marking bodies are run as meant, the labels are apart. -/
theorem labelsApart_of_marked {x : Int} (labels : List (List Int)) (base k : Nat) (s : State)
    (h : runCase env n st (hits (BitVec.ofInt 32 x)) none
        (caseArms link (labels.zip (markFirst x labels)) depth base) k s =
      runCase env n st (fun ls => decide (x ∈ ls)) none
        (caseArms link (labels.zip (markFirst x labels)) depth base) k s) :
    LabelsApart x labels := by
  induction labels generalizing base k with
  | nil => exact labelsApart_nil x
  | cons ls rest ih =>
    rw [labelsApart_cons]
    by_cases hx : x ∈ ls
    · exact .inl hx
    · refine .inr ?_
      cases ls with
      | nil => exact ⟨rfl, ih base k h⟩
      | cons y ys =>
        cases hhit : hits (BitVec.ofInt 32 x) (y :: ys) with
        | true =>
          -- the branch with the bits returns, and no other branch does anything
          rw [markFirst, if_pos hhit, List.zip_cons_cons, caseArms, runCase, if_pos hhit, runCase,
            if_neg (by simpa using hx), runCase_empty] at h
          cases h
        | false =>
          rw [markFirst, if_neg (by simp [hhit]), List.zip_cons_cons, caseArms, runCase,
            if_neg (by simp [hhit]), runCase, if_neg (by simpa using hx)] at h
          exact ⟨rfl, ih _ (k + 1) h⟩

end Marking

theorem mem_markFirst {x : Int} {labels : List (List Int)} {body : List TypedStatement}
    (h : body ∈ markFirst x labels) : stmtsCalls body = [] := by
  induction labels with
  | nil => cases h
  | cons ls rest ih =>
    rw [markFirst] at h
    split at h
    · rcases List.mem_cons.mp h with rfl | hrest
      · rfl
      · obtain ⟨_, -, rfl⟩ := List.mem_map.mp hrest
        rfl
    · rcases List.mem_cons.mp h with rfl | hrest
      · rfl
      · exact ih hrest

theorem branchesCalls_eq_nil : ∀ (branches : List (List Int × List TypedStatement)),
    (∀ branch ∈ branches, stmtsCalls branch.2 = []) → branchesCalls branches = []
  | [], _ => rfl
  | ([], _) :: rest, h =>
    branchesCalls_eq_nil rest fun branch hb => h branch (List.mem_cons_of_mem _ hb)
  | (_ :: _, stmts) :: rest, h => by
    have hrest := branchesCalls_eq_nil rest fun branch hb => h branch (List.mem_cons_of_mem _ hb)
    rw [branchesCalls, hrest, List.append_nil]
    exact h _ List.mem_cons_self

/-- A CASE whose every choice of bodies is run as meant has its labels apart. -/
theorem CaseMeant.labelsApart {x : Int} {labels : List (List Int)} (h : CaseMeant x labels) :
    LabelsApart x labels := by
  let e : WasmEmitter := ⟨[], []⟩
  let selector : TypedExpr := .literal (.integer x 32) .dint
  let branches := labels.zip (markFirst x labels)
  let stmt : TypedStatement := .caseStmt selector branches none
  let s : State := ⟨[], [.i32 0], .zeroed 0⟩
  have hcalls : stmtCalls stmt = [] := by
    have hnone : branchesCalls branches = [] :=
      branchesCalls_eq_nil _ fun branch hb => mem_markFirst (List.of_mem_zip hb).2
    show exprCalls selector ++ (branchesCalls branches ++ []) = []
    rw [hnone]
    rfl
  have htree : e.treeOf (lowerStatement stmt) .new = some (strip (stmtCode e.link stmt 0 0)) := by
    refine ((lowerStatement_emits _).treeOf_iff _ _).mpr ⟨?_, rfl⟩
    rw [hcalls]
    rfl
  have hmeant := h e selector (markFirst x labels) none .new _ (length_markFirst x labels) htree
    bareEnv 0 s _ rfl rfl Nat.zero_lt_one
  have hruns := lowerCase_runs e selector branches none .new htree bareEnv 0 (s := s) rfl rfl
    Nat.zero_lt_one
  exact labelsApart_of_marked bareEnv e.link 0 [] 0 labels 1 0 _ (hruns.symm.trans hmeant)

/-- The CASE runs the first branch with the selector's value, or the ELSE, exactly when the branches
with another label of the same low 32 bits come after one with the value. -/
theorem caseMeant_iff (x : Int) (labels : List (List Int)) :
    CaseMeant x labels ↔ LabelsApart x labels := by
  refine ⟨CaseMeant.labelsApart, ?_⟩
  intro h e selector bodies elseBranch lowerer tree hlength htree env n s s' hselector hvalue htemp
  have hruns := lowerCase_runs e selector (labels.zip bodies) elseBranch lowerer htree env n
    hselector
    hvalue htemp
  rw [hruns]
  apply LabelsApart.runCase_eq
  rw [caseArms_labels, List.map_fst_zip hlength.ge]
  exact h

/-- The label 2^32 + 5 takes the selector 5. -/
theorem caseMeant_fails : ¬ CaseMeant 5 [[4294967301]] := by
  intro h
  obtain ⟨ls, hls, -⟩ := h.labelsApart [] [4294967301] [] rfl (by decide) (by decide)
  cases hls

end VirtualPlc.Compiler
