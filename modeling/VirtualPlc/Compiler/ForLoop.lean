import VirtualPlc.Compiler.Access
import VirtualPlc.Compiler.Emission
import VirtualPlc.Compiler.ForValues
import VirtualPlc.Compiler.Layout

/-!
# FOR loops

`ForMeant` says that a FOR with constant expressions runs its body for the values that it names and
writes nothing but its variable. `forMeant_iff`: it does so exactly when the variable has four
bytes, lies in memory, and the signed 32-bit test against the final value stops after these values.
-/

set_option autoImplicit false

namespace VirtualPlc.Compiler

open VirtualPlc.Word VirtualPlc.Wasm VirtualPlc.Control

/-! ## What a FOR means -/

/-- The integer types of at most 32 bits. -/
def DataType.isInt32 : DataType → Bool
  | .sint | .int | .dint | .usint | .uint | .udint => true
  | _ => false

/-- `v` is a value of the integer type. -/
def DataType.Holds (ty : DataType) (v : Int) : Prop :=
  match ty with
  | .sint | .int | .dint => InSigned (8 * ty.storage) v
  | _ => 0 ≤ v ∧ v < 2 ^ (8 * ty.storage)

/-- The lowered expression pushes the constant `v`. -/
def Pushes (t : TypedExpr) (v : Int) : Prop :=
  ∀ (emitter : WasmEmitter) (s : IrLowerer), ∃ code, emitter.treeOf (lowerExpr t) s = some code ∧
    ∀ (env : Env Bounds) (n : Nat) (st : State),
      execSeq (machine env) n code st = .normal (st.push (.i32 (BitVec.ofInt 32 v)))

/-- An accepted expression that pushes the constant `v`. -/
def PushesFrom (b : Build) (tc : TypeChecker) (e : Expression) (v : Int) : Prop :=
  ∃ t, tc.checkExpr b e = .ok t ∧ Pushes t v

/-- A FOR over the variable `var` with constant expressions; without BY the step is 1. -/
structure ConstantFor (b : Build) (tc : TypeChecker) (name : String) (start stop : Expression)
    (step : Option Expression) (var : SymbolInfo) (first last inc : Int) : Prop where
  lookup : tc.symbols.vars.lookup name = some var
  integer : var.dataType.isInt32 = true
  start : PushesFrom b tc start first
  stop : PushesFrom b tc stop last
  step : match step with
    | some e => PushesFrom b tc e inc
    | none => inc = 1
  holdsFirst : var.dataType.Holds first
  holdsLast : var.dataType.Holds last
  holdsBy : var.dataType.Holds inc
  nonzero : inc ≠ 0

/-- Set the declared bytes of an integer variable. -/
def SymbolInfo.assign (var : SymbolInfo) (v : Int) (mem : Memory) : Memory :=
  mem.set var.offset var.dataType.storage (BitVec.ofInt (8 * var.dataType.storage) v).toNat

/-- Runs of a loop body for `count` values of the variable: with the value number `i` assigned, the
body leads from the locals and memory `states i` to `states (i + 1)` and keeps the variable. -/
structure BodyPasses (env : Env Bounds) (body : PlcCode) (var : SymbolInfo) (st : List Value)
    (values : Nat → Int) (count : Nat) (states : Nat → List Value × Memory) : Prop where
  run : ∀ i < count,
    Runs (machine env) body ⟨st, (states i).1, var.assign (values i) (states i).2⟩
      (.normal ⟨st, (states (i + 1)).1, (states (i + 1)).2⟩)
  keeps : ∀ i < count, ∀ a, var.offset ≤ a → a < var.offset + var.dataType.storage →
    (states (i + 1)).2.byte a = (var.assign (values i) (states i).2).byte a
  size : ∀ i < count, (states (i + 1)).2.size = (states i).2.size

/-- Every accepted FOR with these expressions terminates, and what it makes of the locals and of the
memory outside its variable is what its body makes of them for the values of the FOR in order. -/
def ForMeant (b : Build) (tc : TypeChecker) (name : String) (start stop : Expression)
    (step : Option Expression) (var : SymbolInfo) (first last inc : Int) : Prop :=
  ∀ (body : List Statement) (typedBody : List TypedStatement) (typed : TypedStatement),
    tc.checkStatements b body = .ok typedBody →
    tc.checkStatement b (.forStmt name start stop step body) = .ok typed →
    ∀ (emitter : WasmEmitter) (s : IrLowerer) (code bodyCode : PlcCode),
      emitter.treeOf (lowerStatement typed) s = some code →
      emitter.treeOf (lowerStatements typedBody) (enterLoop s) = some bodyCode →
      ∀ (env : Env Bounds) (st : List Value) (states : Nat → List Value × Memory),
        (∀ a, env.guard a = false) → (states 0).2.size = pageSize →
        BodyPasses env bodyCode var st (forValue first inc) (forCount first last inc) states →
        ∃ mem, Runs (machine env) code ⟨st, (states 0).1, (states 0).2⟩
            (.normal ⟨st, (states (forCount first last inc)).1, mem⟩) ∧
          (states (forCount first last inc)).2.AgreeOutside mem var.offset var.dataType.storage

/-! ## One pass of the loop -/

section Passes

/-- The code pushes the constant `x` in every state. -/
def PushesWord (env : Env Bounds) (code : PlcCode) (x : BitVec 32) : Prop :=
  ∀ (n : Nat) (s : State), execSeq (machine env) n code s = .normal (s.push (.i32 x))

/-- The code between the labels of a FOR. -/
def forLoopCode (offset : Nat) (stop step body : PlcCode) : PlcCode :=
  ops [.const (.i32 0), .load .i32 offset] ++ (stop ++ (ops [.i32Rel .gtS, .brIf 1] ++ (body ++
    (ops [.const (.i32 0), .const (.i32 0), .load .i32 offset] ++ (step ++
      ops [.i32Bin .add, .store .i32 offset, .br 0])))))

theorem forCode_eq (offset : Nat) (start stop step body : PlcCode) :
    forCode offset start stop step body =
      ops [.const (.i32 0)] ++ (start ++ (ops [.store .i32 offset] ++
        [.block [.loop (forLoopCode offset stop step body)]])) := rfl

variable {env : Env Bounds} {offset n : Nat} {start stop step body : PlcCode} {q d x : BitVec 32}
  {st l l' : List Value} {mem mem' : Memory}

/-- Reading the control variable. -/
theorem execSeq_loadWord (hfit : offset + 4 ≤ mem.size) (hx : mem.value offset 4 = x.toNat) :
    execSeq (machine env) n (ops [.const (.i32 0), .load .i32 offset]) ⟨st, l, mem⟩ =
      .normal ⟨.i32 x :: st, l, mem⟩ := by
  have haddr : (0 : BitVec 32).toNat + offset = offset := by simp
  have hread : mem.read offset 4 = some x.toNat := by
    rw [Memory.read_eq hfit, hx]
  simp only [execSeq_ops_cons, execSeq_ops_nil, machine_step, stepOp_const, State.push_mk,
    Outcome.andThen_normal, stepOp_load, haddr, ValType.width, hread, Option.map_some,
    State.pushOrTrap_some, ValType.fromBits, BitVec.ofNat_toNat, BitVec.setWidth_eq]

/-- Writing the control variable. -/
theorem stepOp_storeWord (hguard : ∀ a, env.guard a = false) (hfit : offset + 4 ≤ mem.size) :
    stepOp env (.store .i32 offset) ⟨.i32 x :: .i32 0 :: st, l, mem⟩ =
      .normal ⟨st, l, mem.set offset 4 x.toNat⟩ := by
  have haddr : (0 : BitVec 32).toNat + offset = offset := by simp
  have h : State.storeWith env ⟨.i32 x :: .i32 0 :: st, l, mem⟩ .i32 offset 4 = .normal _ :=
    storeWith_eq rfl (by rw [haddr]; exact hfit) (Env.guarded_eq_false fun i _ _ => hguard i)
  rw [haddr] at h
  exact h

/-- The test of the loop leaves it when the variable is greater than the final value. -/
theorem execSeq_forLoop_exit (hstop : PushesWord env stop q) (hfit : offset + 4 ≤ mem.size)
    (hx : mem.value offset 4 = x.toNat) (hgt : q.slt x = true) :
    execSeq (machine env) n (forLoopCode offset stop step body) ⟨st, l, mem⟩ =
      .br 1 ⟨st, l, mem⟩ := by
  rw [forLoopCode, execSeq_append, execSeq_loadWord hfit hx, Outcome.andThen_normal,
    execSeq_append, hstop, Outcome.andThen_normal, execSeq_append]
  simp only [State.push_mk, execSeq_ops_cons, machine_step, stepOp_i32Rel, IntRel.eval, hgt,
    boolValue, if_true, Outcome.andThen_normal, stepOp_brIf]
  rfl

/-- Otherwise the body runs, and the variable is increased. -/
theorem execSeq_forLoop_next (hguard : ∀ a, env.guard a = false) (hstop : PushesWord env stop q)
    (hstep : PushesWord env step d) (hfit : offset + 4 ≤ mem.size)
    (hx : mem.value offset 4 = x.toNat) (hle : q.slt x = false)
    (hbody : execSeq (machine env) n body ⟨st, l, mem⟩ = .normal ⟨st, l', mem'⟩)
    (hfit' : offset + 4 ≤ mem'.size) (hx' : mem'.value offset 4 = x.toNat) :
    execSeq (machine env) n (forLoopCode offset stop step body) ⟨st, l, mem⟩ =
      .br 0 ⟨st, l', mem'.set offset 4 (x + d).toNat⟩ := by
  have htest : execSeq (machine env) n (ops [.i32Rel .gtS, .brIf 1])
      ⟨.i32 q :: .i32 x :: st, l, mem⟩ = .normal ⟨st, l, mem⟩ := by
    simp only [execSeq_ops_cons, machine_step, stepOp_i32Rel, IntRel.eval, hle, boolValue,
      Outcome.andThen_normal, stepOp_brIf]
    rfl
  have hload : execSeq (machine env) n
      (ops [.const (.i32 0), .const (.i32 0), .load .i32 offset]) ⟨st, l', mem'⟩ =
        .normal ⟨.i32 x :: .i32 0 :: st, l', mem'⟩ :=
    execSeq_loadWord hfit' hx'
  have hadd : stepOp env (.i32Bin .add) ⟨.i32 d :: .i32 x :: .i32 0 :: st, l', mem'⟩ =
      .normal ⟨.i32 (x + d) :: .i32 0 :: st, l', mem'⟩ := rfl
  rw [forLoopCode, execSeq_append, execSeq_loadWord hfit hx, Outcome.andThen_normal,
    execSeq_append, hstop, Outcome.andThen_normal, State.push_mk, execSeq_append, htest,
    Outcome.andThen_normal, execSeq_append, hbody, Outcome.andThen_normal, execSeq_append, hload,
    Outcome.andThen_normal, execSeq_append, hstep, Outcome.andThen_normal]
  simp only [State.push_mk, execSeq_ops_cons, machine_step, hadd, Outcome.andThen_normal,
    stepOp_storeWord hguard hfit', stepOp_br, Outcome.andThen_br]

/-- The start of a FOR. -/
theorem execSeq_forCode (hguard : ∀ a, env.guard a = false) (hstart : PushesWord env start x)
    (hfit : offset + 4 ≤ mem.size) :
    execSeq (machine env) n (forCode offset start stop step body) ⟨st, l, mem⟩ =
      exec (machine env) n (.block [.loop (forLoopCode offset stop step body)])
        ⟨st, l, mem.set offset 4 x.toNat⟩ := by
  rw [forCode_eq, execSeq_append]
  simp only [execSeq_ops_cons, execSeq_ops_nil, machine_step, stepOp_const,
    Outcome.andThen_normal, State.push_mk]
  rw [execSeq_append, hstart, Outcome.andThen_normal, execSeq_append]
  simp only [State.push_mk, execSeq_ops_cons, execSeq_ops_nil, machine_step,
    stepOp_storeWord hguard hfit, Outcome.andThen_normal]
  rw [execSeq_singleton]

/-- The start of a FOR traps when its variable is out of memory. -/
theorem execSeq_forCode_trap (hstart : PushesWord env start x) (hfit : mem.size < offset + 4) :
    execSeq (machine env) n (forCode offset start stop step body) ⟨st, l, mem⟩ =
      .abort .trap := by
  have haddr : (0 : BitVec 32).toNat + offset = offset := by simp
  have hstore : State.storeWith env ⟨.i32 x :: .i32 0 :: st, l, mem⟩ .i32 offset 4 =
      .abort .trap := storeWith_trap rfl (by rw [haddr]; exact hfit)
  change stepOp env (.store .i32 offset) ⟨.i32 x :: .i32 0 :: st, l, mem⟩ = .abort .trap at hstore
  rw [forCode_eq, execSeq_append]
  simp only [execSeq_ops_cons, execSeq_ops_nil, machine_step, stepOp_const,
    Outcome.andThen_normal, State.push_mk]
  rw [execSeq_append, hstart, Outcome.andThen_normal, execSeq_append]
  simp only [State.push_mk, execSeq_ops_cons, machine_step, hstore, Outcome.andThen_abort]

end Passes

/-! ## Whole runs -/

section Runs

variable {env : Env Bounds} {offset : Nat} {start stop step body : PlcCode} {q d : BitVec 32}
  {st : List Value} {counter : Nat → BitVec 32} {states : Nat → List Value × Memory}

/-- The state in which the loop tests the value number `i`. -/
def testState (offset : Nat) (st : List Value) (counter : Nat → BitVec 32)
    (states : Nat → List Value × Memory) (i : Nat) : State :=
  ⟨st, (states i).1, (states i).2.set offset 4 (counter i).toNat⟩

theorem value_set_word (mem : Memory) (x : BitVec 32) :
    (mem.set offset 4 x.toNat).value offset 4 = x.toNat := by
  have hlt : x.toNat < 256 ^ 4 := x.isLt
  rw [Memory.value_set_same, Nat.mod_eq_of_lt hlt]

/-- The facts about a FOR that its runs use. -/
structure LoopFacts (env : Env Bounds) (offset : Nat) (start stop step : PlcCode) (q d : BitVec 32)
    (counter : Nat → BitVec 32) : Prop where
  guard : ∀ a, env.guard a = false
  start : PushesWord env start (counter 0)
  stop : PushesWord env stop q
  step : PushesWord env step d
  counter : ∀ i, counter (i + 1) = counter i + d

/-- The body, run on the value number `i` with the bound `n`, leads to the state number `i + 1`. -/
structure PassFacts (env : Env Bounds) (offset n : Nat) (body : PlcCode) (st : List Value)
    (counter : Nat → BitVec 32) (states : Nat → List Value × Memory) (i : Nat) : Prop where
  run : execSeq (machine env) n body (testState offset st counter states i) =
    .normal ⟨st, (states (i + 1)).1, (states (i + 1)).2⟩
  keeps : (states (i + 1)).2.value offset 4 = (counter i).toNat
  fits : offset + 4 ≤ (states i).2.size
  fitsNext : offset + 4 ≤ (states (i + 1)).2.size

theorem forLoop_continues (h : LoopFacts env offset start stop step q d counter) {n k : Nat}
    (hle : ∀ i < k, q.slt (counter i) = false)
    (hpass : ∀ i < k, PassFacts env offset n body st counter states i) :
    Continues ((machine env).unwind (testState offset st counter states 0))
      (execSeq (machine env) n (forLoopCode offset stop step body))
      (testState offset st counter states) k := by
  intro i hi
  obtain ⟨hrun, hkeeps, hfit, hfit'⟩ := hpass i hi
  have hnext : execSeq (machine env) n (forLoopCode offset stop step body)
      (testState offset st counter states i) = _ :=
    execSeq_forLoop_next h.guard h.stop h.step hfit (value_set_word _ _) (hle i hi) hrun
      hfit' hkeeps
  refine ⟨_, hnext, ?_⟩
  rw [← h.counter i]
  rfl

/-- The loop runs its body for the values before the first one after the final value. -/
theorem runs_forCode (h : LoopFacts env offset start stop step q d counter) {k : Nat}
    (hle : ∀ i < k, q.slt (counter i) = false) (hgt : q.slt (counter k) = true)
    (hpass : ∀ i < k, ∃ N, ∀ n, N ≤ n → PassFacts env offset n body st counter states i)
    (hfirst : offset + 4 ≤ (states 0).2.size) (hlast : offset + 4 ≤ (states k).2.size) :
    Runs (machine env) (forCode offset start stop step body) ⟨st, (states 0).1, (states 0).2⟩
      (.normal (testState offset st counter states k)) := by
  obtain ⟨N, hN⟩ := eventually_forall_lt hpass
  refine .of_eventually (fun h' => by cases h') (N := max N (k + 1)) ?_
  intro n hn
  have hexit : execSeq (machine env) n (forLoopCode offset stop step body)
      (testState offset st counter states k) = .br 1 (testState offset st counter states k) :=
    execSeq_forLoop_exit h.stop hlast (value_set_word _ _) hgt
  have hchain := forLoop_continues h hle (hN n (by omega))
  obtain ⟨m, rfl⟩ : ∃ m, n = k + (m + 1) := ⟨n - k - 1, by omega⟩
  have hiterate := iterate_continues (m + 1) hchain
  rw [iterate, hexit] at hiterate
  rw [execSeq_forCode h.guard h.start hfirst, exec_block, execSeq_singleton, exec_loop]
  show (iterate _ _ _ (testState offset st counter states 0)).label _ = _
  have hunwind : (machine env).unwind (testState offset st counter states 0) =
      (machine env).unwind ⟨st, (states 0).1, (states 0).2.set offset 4 (counter 0).toNat⟩ := rfl
  rw [← hunwind, hiterate]
  rfl

/-- A loop whose test never fails does not terminate. -/
theorem not_runs_forCode (h : LoopFacts env offset start stop step q d counter)
    (hle : ∀ i, q.slt (counter i) = false)
    (hpass : ∀ n i, PassFacts env offset n body st counter states i) (o : Outcome Fault State) :
    ¬ Runs (machine env) (forCode offset start stop step body)
      ⟨st, (states 0).1, (states 0).2⟩ o := by
  rintro ⟨ho, n, hn⟩
  have hforever := iterate_forever
    (fun k => forLoop_continues (k := k) h (fun i _ => hle i) fun i _ => hpass n i) n
  rw [execSeq_forCode h.guard h.start (hpass n 0).fits, exec_block, execSeq_singleton,
    exec_loop] at hn
  have htimeout : (iterate ((machine env).unwind (testState offset st counter states 0))
      (execSeq (machine env) n (forLoopCode offset stop step body)) n
      (testState offset st counter states 0)).label
        ((machine env).unwind (testState offset st counter states 0)) = o := hn
  rw [hforever] at htimeout
  exact ho htimeout.symm

end Runs

/-! ## The emitted code -/

section Emitted

variable {b : Build} {tc : TypeChecker} {name : String} {start stop : Expression}
  {step : Option Expression} {var : SymbolInfo} {first last inc : Int}

/-- A typed step pushes the constant `v`; without one it is 1. -/
def StepPushes (step : Option TypedExpr) (v : Int) : Prop :=
  match step with
  | some t => Pushes t v
  | none => v = 1

/-- The typed statement of a FOR. -/
theorem ConstantFor.typed (h : ConstantFor b tc name start stop step var first last inc) :
    ∃ ts tl tstep, Pushes ts first ∧ Pushes tl last ∧ StepPushes tstep inc ∧
      ∀ body typedBody, tc.checkStatements b body = .ok typedBody →
        tc.checkStatement b (.forStmt name start stop step body) =
          .ok (.forStmt name var.offset ts tl tstep typedBody) := by
  obtain ⟨ts, hts, hstart⟩ := h.start
  obtain ⟨tl, htl, hstop⟩ := h.stop
  have hvar : tc.checkForVariable name = .ok var := by
    rw [TypeChecker.checkForVariable, h.lookup]
  have hstep := h.step
  cases step with
  | none =>
    refine ⟨ts, tl, none, hstart, hstop, hstep, ?_⟩
    intro body typedBody hbody
    rw [TypeChecker.checkStatement, hvar, hts, htl, hbody]
    rfl
  | some e =>
    obtain ⟨te, hte, hpush⟩ := hstep
    refine ⟨ts, tl, some te, hstart, hstop, hpush, ?_⟩
    intro body typedBody hbody
    rw [TypeChecker.checkStatement, hvar, hts, htl, TypeChecker.checkOptional, hte, hbody]
    rfl

theorem Pushes.resolves {t : TypedExpr} {v : Int} (h : Pushes t v) (emitter : WasmEmitter) :
    emitter.resolveAll (exprCalls t) = .ok () ∧
      ∀ env, PushesWord env (strip (exprCode emitter.link t)) (BitVec.ofInt 32 v) := by
  obtain ⟨code, hcode, hrun⟩ := h emitter IrLowerer.new
  obtain ⟨hcalls, rfl⟩ := ((lowerExpr_emits emitter t).treeOf_iff _ _).1 hcode
  exact ⟨hcalls, hrun⟩

/-- The calls of a step. -/
def stepCalls (step : Option TypedExpr) : List (String × Bool) :=
  match step with
  | some e => exprCalls e
  | none => []

theorem StepPushes.resolves {step : Option TypedExpr} {v : Int} (h : StepPushes step v)
    (emitter : WasmEmitter) : emitter.resolveAll (stepCalls step) = .ok () ∧
      ∀ env, PushesWord env (strip (stepCode emitter.link step)) (BitVec.ofInt 32 v) := by
  cases step with
  | some t => exact Pushes.resolves h emitter
  | none =>
    obtain rfl : v = 1 := h
    refine ⟨rfl, ?_⟩
    intro env n st
    rfl

theorem strip_forCode (offset : Nat) (start stop step body : PlcCode) :
    strip (forCode offset start stop step body) =
      forCode offset (strip start) (strip stop) (strip step) (strip body) := by
  simp only [forCode, strip_append, strip_ops, strip_cons, strip_nil, Code.strip, List.append_nil]

/-- The emitted code of a FOR around the emitted code of its body. -/
theorem treeOf_for {ts tl : TypedExpr} {tstep : Option TypedExpr} (hstart : Pushes ts first)
    (hstop : Pushes tl last) (hstep : StepPushes tstep inc) (name : String) (offset : Nat)
    (body : List TypedStatement) (emitter : WasmEmitter) (s : IrLowerer) (code : PlcCode) :
    emitter.treeOf (lowerStatement (.forStmt name offset ts tl tstep body)) s = some code ↔
      ∃ bodyCode, emitter.treeOf (lowerStatements body) (enterLoop s) = some bodyCode ∧
        code = forCode (asU32 offset) (strip (exprCode emitter.link ts))
          (strip (exprCode emitter.link tl)) (strip (stepCode emitter.link tstep)) bodyCode := by
  have hcalls : stmtCalls (.forStmt name offset ts tl tstep body) =
      exprCalls ts ++ (exprCalls tl ++ (stmtsCalls body ++ stepCalls tstep)) := by
    cases tstep <;> rfl
  have hresolve : emitter.resolveAll (stmtCalls (.forStmt name offset ts tl tstep body)) = .ok () ↔
      emitter.resolveAll (stmtsCalls body) = .ok () := by
    rw [hcalls, WasmEmitter.resolveAll_append, (hstart.resolves emitter).1,
      Except.bind, WasmEmitter.resolveAll_append, (hstop.resolves emitter).1, Except.bind,
      WasmEmitter.resolveAll_append]
    cases emitter.resolveAll (stmtsCalls body) with
    | error err => exact ⟨fun h => (nomatch h), fun h => (nomatch h)⟩
    | ok u => exact ⟨fun _ => rfl, fun _ => (hstep.resolves emitter).1⟩
  rw [(lowerStatement_emits (e := emitter) _).treeOf_iff, hresolve]
  constructor
  · rintro ⟨hbody, rfl⟩
    refine ⟨_, ((lowerStatements_emits (e := emitter) body).treeOf_iff _ _).2 ⟨hbody, rfl⟩, ?_⟩
    rw [stmtCode, strip_forCode]
    rfl
  · rintro ⟨bodyCode, hbody, rfl⟩
    obtain ⟨hres, rfl⟩ := ((lowerStatements_emits (e := emitter) body).treeOf_iff _ _).1 hbody
    refine ⟨hres, ?_⟩
    rw [stmtCode, strip_forCode]
    rfl

end Emitted

/-! ## A FOR over four bytes that stops in time -/

section Sufficient

variable {b : Build} {tc : TypeChecker} {name : String} {start stop : Expression}
  {step : Option Expression} {var : SymbolInfo} {first last inc : Int}

/-- The word of the control variable in the pass with the number `i`. -/
def forWord (first inc : Int) (i : Nat) : BitVec 32 := BitVec.ofInt 32 (forValue first inc i)

theorem slt_forWord (i : Nat) :
    (BitVec.ofInt 32 last).slt (forWord first inc i) =
      decide (wordInt last < wordInt (forValue first inc i)) := rfl

theorem forWord_succ (i : Nat) :
    forWord first inc (i + 1) = forWord first inc i + BitVec.ofInt 32 inc := by
  rw [forWord, forValue_succ, BitVec.ofInt_add]
  rfl

theorem forWord_zero : forWord first inc 0 = BitVec.ofInt 32 first := by
  rw [forWord, forValue_zero]

theorem SymbolInfo.assign_word (hw : var.dataType.storage = 4) (v : Int) (mem : Memory) :
    var.assign v mem = mem.set var.offset 4 (BitVec.ofInt 32 v).toNat := by
  rw [SymbolInfo.assign, hw]

theorem ConstantFor.sameType (h : ConstantFor b tc name start stop step var first last inc)
    (hw : var.dataType.storage = 4) : SameType first last inc := by
  obtain ⟨-, hint, -, -, -, hfirst, hlast, hby, -⟩ := h
  cases hty : var.dataType with
  | dint =>
    rw [hty] at hfirst hlast hby
    exact .inl ⟨hfirst, hlast, hby⟩
  | udint =>
    rw [hty] at hfirst hlast hby
    exact .inr ⟨hfirst, hlast, hby⟩
  | sint | int | usint | uint =>
    rw [hty] at hw
    cases hw
  | _ =>
    rw [hty] at hint
    cases hint

/-- The signed test lets exactly the values of the FOR pass. -/
theorem stopsInTime_iff (h : SameType first last inc) (hby : inc ≠ 0) :
    ((∀ i < forCount first last inc,
        (BitVec.ofInt 32 last).slt (forWord first inc i) = false) ∧
      (BitVec.ofInt 32 last).slt (forWord first inc (forCount first last inc)) = true) ↔
        StopsInTime first last inc := by
  have hwords : ((∀ i < forCount first last inc,
        (BitVec.ofInt 32 last).slt (forWord first inc i) = false) ∧
      (BitVec.ofInt 32 last).slt (forWord first inc (forCount first last inc)) = true) ↔
      ((∀ i < forCount first last inc, wordInt (forValue first inc i) ≤ wordInt last) ∧
        wordInt last < wordInt (forValue first inc (forCount first last inc))) := by
    simp only [slt_forWord, decide_eq_false_iff_not, decide_eq_true_eq, Int.not_lt]
  rw [hwords]
  rcases Int.lt_or_gt_of_ne hby with hneg | hpos
  · exact stopsInTime_down h hneg
  · exact stopsInTime_up h hpos

/-- The bytes of the variable hold the value number `i` after the pass. -/
theorem BodyPasses.value {env : Env Bounds} {body : PlcCode} {st : List Value} {count : Nat}
    {states : Nat → List Value × Memory}
    (h : BodyPasses env body var st (forValue first inc) count states)
    (hw : var.dataType.storage = 4) {i : Nat} (hi : i < count) :
    (states (i + 1)).2.value var.offset 4 = (forWord first inc i).toNat := by
  have hkeeps := h.keeps i hi
  rw [hw, SymbolInfo.assign_word hw] at hkeeps
  rw [Memory.value_congr hkeeps]
  exact value_set_word _ _

theorem BodyPasses.size_eq {env : Env Bounds} {body : PlcCode} {st : List Value} {count : Nat}
    {values : Nat → Int} {states : Nat → List Value × Memory}
    (h : BodyPasses env body var st values count states) :
    ∀ i ≤ count, (states i).2.size = (states 0).2.size := by
  intro i
  induction i with
  | zero => exact fun _ => rfl
  | succ i ih =>
    intro hi
    rw [h.size i (by omega), ih (by omega)]

theorem forMeant_of_stopsInTime (h : ConstantFor b tc name start stop step var first last inc)
    (hw : var.dataType.storage = 4) (hfit : var.offset + 4 ≤ pageSize)
    (hstops : StopsInTime first last inc) :
    ForMeant b tc name start stop step var first last inc := by
  obtain ⟨ts, tl, tstep, hstart, hstop, hstep, htyped⟩ := h.typed
  intro body typedBody typed hbody ht emitter s code bodyCode hcode hbodyCode env st states hguard
    hsize hpasses
  obtain rfl := Except.ok.inj ((htyped _ _ hbody).symm.trans ht)
  obtain ⟨bodyCode', hbodyCode', rfl⟩ := (treeOf_for hstart hstop hstep ..).1 hcode
  obtain rfl := Option.some.inj (hbodyCode'.symm.trans hbodyCode)
  obtain ⟨hbefore, hafter⟩ := (stopsInTime_iff (h.sameType hw) h.nonzero).2 hstops
  have hpage : pageSize < 2 ^ 32 := by decide
  have hoffset : asU32 var.offset = var.offset := asU32_of_lt (by omega)
  have hfits : ∀ i ≤ forCount first last inc, var.offset + 4 ≤ (states i).2.size := by
    intro i hi
    rw [hpasses.size_eq i hi, hsize]
    exact hfit
  have hfacts : LoopFacts env var.offset (strip (exprCode emitter.link ts))
      (strip (exprCode emitter.link tl)) (strip (stepCode emitter.link tstep))
      (BitVec.ofInt 32 last) (BitVec.ofInt 32 inc) (forWord first inc) := by
    refine ⟨hguard, ?_, (hstop.resolves emitter).2 env, (hstep.resolves emitter).2 env,
      forWord_succ⟩
    rw [forWord_zero]
    exact (hstart.resolves emitter).2 env
  have hpass : ∀ i < forCount first last inc, ∃ N, ∀ n, N ≤ n →
      PassFacts env var.offset n bodyCode' st (forWord first inc) states i := by
    intro i hi
    obtain ⟨N, hN⟩ := (hpasses.run i hi).eventually
    refine ⟨N, ?_⟩
    intro n hn
    refine ⟨?_, hpasses.value hw hi, hfits i (by omega), hfits (i + 1) (by omega)⟩
    have hstate : testState var.offset st (forWord first inc) states i =
        ⟨st, (states i).1, var.assign (forValue first inc i) (states i).2⟩ := by
      rw [SymbolInfo.assign_word hw]
      rfl
    rw [hstate]
    exact hN n hn
  have hrun := runs_forCode hfacts hbefore hafter hpass (hfits 0 (by omega))
    (hfits _ (Nat.le_refl _))
  rw [hoffset]
  refine ⟨_, hrun, ?_⟩
  rw [hw]
  exact Memory.agreeOutside_set

end Sufficient

/-! ## What a FOR as meant needs -/

section Necessary

variable {b : Build} {tc : TypeChecker} {name : String} {start stop : Expression}
  {step : Option Expression} {var : SymbolInfo} {first last inc : Int}

/-- The states of an empty body. -/
def idleStates (var : SymbolInfo) (values : Nat → Int) (mem : Memory) : Nat → List Value × Memory
  | 0 => ([], mem)
  | i + 1 => ([], var.assign (values i) (idleStates var values mem i).2)

theorem idleStates_fst (values : Nat → Int) (mem : Memory) (i : Nat) :
    (idleStates var values mem i).1 = [] := by
  cases i <;> rfl

theorem idle_passes (env : Env Bounds) (values : Nat → Int) (mem : Memory) (count : Nat) :
    BodyPasses env [] var [] values count (idleStates var values mem) := by
  refine ⟨?_, fun _ _ _ _ _ => rfl, fun _ _ => rfl⟩
  intro i _
  refine ⟨fun h => (nomatch h), 0, ?_⟩
  rw [idleStates_fst, idleStates_fst]
  rfl

theorem idle_agree (values : Nat → Int) (mem : Memory) :
    ∀ i, mem.AgreeOutside (idleStates var values mem i).2 var.offset var.dataType.storage
  | 0 => .refl
  | i + 1 => (idle_agree values mem i).trans Memory.agreeOutside_set

/-- A FOR with an empty body that does what it means changes only its variable. -/
theorem ForMeant.idle (hm : ForMeant b tc name start stop step var first last inc)
    (h : ConstantFor b tc name start stop step var first last inc) :
    ∃ startC stopC stepC : PlcCode, (∀ env, PushesWord env startC (BitVec.ofInt 32 first)) ∧
      (∀ env, PushesWord env stopC (BitVec.ofInt 32 last)) ∧
      (∀ env, PushesWord env stepC (BitVec.ofInt 32 inc)) ∧
      ∀ mem : Memory, mem.size = pageSize → ∃ mem', mem.AgreeOutside mem' var.offset
        var.dataType.storage ∧
        Runs (machine bareEnv) (forCode (asU32 var.offset) startC stopC stepC []) ⟨[], [], mem⟩
          (.normal ⟨[], [], mem'⟩) := by
  obtain ⟨ts, tl, tstep, hstart, hstop, hstep, htyped⟩ := h.typed
  have hcode := (treeOf_for hstart hstop hstep name var.offset [] ⟨[], []⟩ IrLowerer.new _).2
    ⟨[], rfl, rfl⟩
  refine ⟨_, _, _, (hstart.resolves ⟨[], []⟩).2, (hstop.resolves ⟨[], []⟩).2,
    (hstep.resolves ⟨[], []⟩).2, ?_⟩
  intro mem hsize
  obtain ⟨mem', hrun, hagree⟩ := hm [] [] _ rfl (htyped [] [] rfl) ⟨[], []⟩ IrLowerer.new _ [] hcode
    rfl bareEnv [] _ (fun _ => rfl) hsize
    (idle_passes bareEnv (forValue first inc) mem (forCount first last inc))
  rw [idleStates_fst, idleStates_fst] at hrun
  exact ⟨mem', (idle_agree _ mem _).trans hagree, hrun⟩

/-- The first store of the loop goes to the variable, and the variable has all four bytes. -/
theorem ForMeant.fourBytes (hm : ForMeant b tc name start stop step var first last inc)
    (h : ConstantFor b tc name start stop step var first last inc) :
    var.dataType.storage = 4 ∧ var.offset + 4 ≤ pageSize := by
  obtain ⟨startC, stopC, stepC, hstart, -, -, hidle⟩ := hm.idle h
  have hfit : asU32 var.offset + 4 ≤ pageSize := by
    by_contra hout
    obtain ⟨mem', -, hrun⟩ := hidle (.zeroed pageSize) rfl
    obtain ⟨-, n, hn⟩ := hrun
    rw [execSeq_forCode_trap (hstart bareEnv) (by simpa using hout)] at hn
    cases hn
  -- two memories that differ in every byte that the store overwrites
  obtain ⟨m₁, hagree₁, hrun₁⟩ := hidle (.zeroed pageSize) rfl
  obtain ⟨m₂, hagree₂, hrun₂⟩ :=
    hidle ((Memory.zeroed pageSize).set (asU32 var.offset) 4 0x01010101) rfl
  have hsame : m₁ = m₂ := by
    obtain ⟨N₁, h₁⟩ := hrun₁.eventually
    obtain ⟨N₂, h₂⟩ := hrun₂.eventually
    have e₁ := h₁ (max N₁ N₂) (by omega)
    have e₂ := h₂ (max N₁ N₂) (by omega)
    rw [execSeq_forCode (fun _ => rfl) (hstart bareEnv) (by simpa using hfit)] at e₁ e₂
    rw [Memory.set_set, e₁] at e₂
    cases e₂
    rfl
  subst hsame
  have hinside : ∀ i < 4, var.offset ≤ asU32 var.offset + i ∧
      asU32 var.offset + i < var.offset + var.dataType.storage := by
    intro i hi
    by_contra hout
    have hzero := hagree₁.2 (asU32 var.offset + i) (by omega)
    have hone := hagree₂.2 (asU32 var.offset + i) (by omega)
    rw [hzero, Memory.byte_set, if_pos ⟨by omega, by omega⟩, Nat.add_sub_cancel_left,
      Memory.byte_zeroed] at hone
    obtain rfl | rfl | rfl | rfl : i = 0 ∨ i = 1 ∨ i = 2 ∨ i = 3 := by omega
    all_goals exact absurd hone (by decide)
  have hstorage : var.dataType.storage ≤ 4 := by
    have hint := h.integer
    cases hty : var.dataType <;> rw [hty] at hint <;> first | (cases hint; done) | decide
  have hlow := hinside 0 (by decide)
  have hhigh := hinside 3 (by decide)
  have hle : asU32 var.offset ≤ var.offset := Nat.mod_le ..
  omega

/-! ### A body that marks one value of the variable -/

/-- Set the byte at `flag` when the variable holds the word `p`. -/
def mark (offset flag : Nat) (p : BitVec 32) (mem : Memory) : Memory :=
  if mem.value offset 4 = p.toNat then mem.set flag 1 1 else mem

/-- A host environment whose functions mark the word `p`. -/
def markEnv (offset flag : Nat) (p : BitVec 32) : Env Bounds :=
  { bareEnv with
    funcType := fun _ => some ⟨[], [.i32]⟩
    call := fun _ _ mem => some (.ok ([.i32 0], mark offset flag p mem)) }

/-- The states of a body that marks the word `p`. -/
def markStates (offset flag : Nat) (p : BitVec 32) (words : Nat → BitVec 32) (mem : Memory) :
    Nat → List Value × Memory
  | 0 => ([], mem)
  | i + 1 => ([], mark offset flag p
      ((markStates offset flag p words mem i).2.set offset 4 (words i).toNat))

section Marks

variable {offset flag : Nat} {p : BitVec 32} {words : Nat → BitVec 32} {mem : Memory}

theorem markStates_fst (i : Nat) : (markStates offset flag p words mem i).1 = [] := by
  cases i <;> rfl

theorem execSeq_marking (n : Nat) (st l : List Value) (m : Memory) :
    execSeq (machine (markEnv offset flag p)) n (ops [.call 0, .drop]) ⟨st, l, m⟩ =
      .normal ⟨st, l, mark offset flag p m⟩ := rfl

theorem mark_agree (m : Memory) : m.AgreeOutside (mark offset flag p m) flag 1 := by
  rw [mark]
  split
  · exact Memory.agreeOutside_set
  · exact .refl

theorem markStates_size (i : Nat) :
    (markStates offset flag p words mem (i + 1)).2.size =
      (markStates offset flag p words mem i).2.size :=
  (mark_agree _).1

/-- The flag tells whether the word was among the first ones. -/
theorem markStates_flag (hflag : flag < offset ∨ offset + 4 ≤ flag) (hmem : mem.byte flag = 0) :
    ∀ i, (markStates offset flag p words mem i).2.byte flag = 1 ↔ ∃ j < i, words j = p
  | 0 => by
    constructor
    · intro h
      rw [markStates, hmem] at h
      exact absurd h (by decide)
    · rintro ⟨j, hj, -⟩
      omega
  | i + 1 => by
    have ih := markStates_flag hflag hmem i
    have hsame : (((markStates offset flag p words mem i).2.set offset 4 (words i).toNat).value
        offset 4 = p.toNat) ↔ words i = p := by
      rw [value_set_word, BitVec.toNat_inj]
    rw [markStates, mark]
    by_cases hp : words i = p
    · rw [if_pos (hsame.2 hp), Memory.byte_set, if_pos ⟨by omega, by omega⟩]
      exact ⟨fun _ => ⟨i, by omega, hp⟩, fun _ => by simp⟩
    · rw [if_neg (fun h => hp (hsame.1 h)), Memory.byte_set_of_outside (by omega), ih]
      constructor
      · rintro ⟨j, hj, hjp⟩
        exact ⟨j, by omega, hjp⟩
      · rintro ⟨j, hj, hjp⟩
        rcases Nat.lt_succ_iff_lt_or_eq.1 hj with hlt | rfl
        · exact ⟨j, hlt, hjp⟩
        · exact absurd hjp hp

theorem mark_passes (hw : var.dataType.storage = 4)
    (hflag : flag < var.offset ∨ var.offset + 4 ≤ flag) (count : Nat) :
    BodyPasses (markEnv var.offset flag p) (ops [.call 0, .drop]) var [] (forValue first inc) count
      (markStates var.offset flag p (forWord first inc) mem) := by
  refine ⟨?_, ?_, fun i _ => markStates_size i⟩
  · intro i _
    refine ⟨fun h => (nomatch h), 0, ?_⟩
    rw [execSeq_marking, markStates_fst, markStates_fst, SymbolInfo.assign_word hw]
    rfl
  · intro i _ a hlow hhigh
    rw [hw] at hhigh
    rw [SymbolInfo.assign_word hw]
    exact (mark_agree _).2 a (by omega)

theorem mark_facts (hflag : flag < offset ∨ offset + 4 ≤ flag)
    (hfit : offset + 4 ≤ mem.size) (n i : Nat) :
    PassFacts (markEnv offset flag p) offset n (ops [.call 0, .drop]) [] words
      (markStates offset flag p words mem) i := by
  have hsize : ∀ i, (markStates offset flag p words mem i).2.size = mem.size := by
    intro i
    induction i with
    | zero => rfl
    | succ i ih => rw [markStates_size, ih]
  refine ⟨?_, ?_, ?_, ?_⟩
  · rw [testState, execSeq_marking, markStates_fst, markStates_fst]
    rfl
  · have hkeep : (markStates offset flag p words mem (i + 1)).2.value offset 4 =
        ((markStates offset flag p words mem i).2.set offset 4 (words i).toNat).value offset 4 :=
      Memory.value_congr fun a hlow hhigh => (mark_agree _).2 a (by omega)
    rw [hkeep, value_set_word]
  · rw [hsize]
    exact hfit
  · rw [hsize]
    exact hfit

end Marks

/-- The emitted code of a call of the function with the index 0. -/
theorem treeOf_call_zero (f : String) (isUserDefined : Bool) (s : IrLowerer) :
    WasmEmitter.treeOf ⟨[(f, 0)], [(f, 0)]⟩ (lowerStatements [.callStmt f [] isUserDefined]) s =
      some (ops [.call 0, .drop]) := by
  have hresolve : WasmEmitter.resolve ⟨[(f, 0)], [(f, 0)]⟩ f isUserDefined = .ok 0 := by
    rw [WasmEmitter.resolve, List.lookup_cons_self]
    cases isUserDefined <;> rfl
  rw [(lowerStatements_emits _).treeOf_iff]
  constructor
  · show WasmEmitter.resolveAll _ [(f, isUserDefined)] = _
    rw [WasmEmitter.resolveAll, hresolve]
    rfl
  · show _ = strip (ops [.call (WasmEmitter.link _ f isUserDefined), .drop] ++ [])
    rw [List.append_nil, strip_ops, WasmEmitter.link, hresolve]

/-- A FOR as meant, with a body that marks the word `p`: if the loop ends at the value number `k`,
then the word is among the first `k` ones exactly when it is among the values of the FOR. -/
theorem ForMeant.marked (hm : ForMeant b tc name start stop step var first last inc)
    (h : ConstantFor b tc name start stop step var first last inc) (hf : tc.functions ≠ [])
    (p : BitVec 32) :
    (∃ i, (BitVec.ofInt 32 last).slt (forWord first inc i) = true) ∧
      ∀ k, (∀ i < k, (BitVec.ofInt 32 last).slt (forWord first inc i) = false) →
        (BitVec.ofInt 32 last).slt (forWord first inc k) = true →
        ((∃ i < k, forWord first inc i = p) ↔
          ∃ i < forCount first last inc, forWord first inc i = p) := by
  obtain ⟨hw, hfit⟩ := hm.fourBytes h
  obtain ⟨ts, tl, tstep, hstart, hstop, hstep, htyped⟩ := h.typed
  obtain ⟨⟨f, sig⟩, rest, hfuns⟩ := List.exists_cons_of_ne_nil hf
  have hpage : pageSize < 2 ^ 32 := by decide
  have hoffset : asU32 var.offset = var.offset := asU32_of_lt (by omega)
  -- the body calls the first callable, which the host defines to mark
  have hbody : tc.checkStatements b [.callStmt f []] =
      .ok [.callStmt f [] sig.isUserDefined] := by
    have hcallee : tc.checkCallee f = .ok sig := by
      rw [TypeChecker.checkCallee, hfuns, List.lookup_cons_self]
    rw [TypeChecker.checkStatements, TypeChecker.checkStatements, TypeChecker.checkStatement,
      hcallee]
    rfl
  have hbodyCode : WasmEmitter.treeOf ⟨[(f, 0)], [(f, 0)]⟩
      (lowerStatements [.callStmt f [] sig.isUserDefined]) (enterLoop IrLowerer.new) =
        some (ops [.call 0, .drop]) :=
    treeOf_call_zero f sig.isUserDefined (enterLoop IrLowerer.new)
  -- the mark is a byte that the loop variable does not cover
  obtain ⟨flag, -, hflag⟩ : ∃ flag < pageSize, flag < var.offset ∨ var.offset + 4 ≤ flag := by
    by_cases hzero : var.offset = 0
    · exact ⟨4, by decide, .inr (by omega)⟩
    · exact ⟨0, by decide, .inl (by omega)⟩
  have hcode := (treeOf_for hstart hstop hstep name var.offset _ ⟨[(f, 0)], [(f, 0)]⟩
    IrLowerer.new _).2 ⟨_, hbodyCode, rfl⟩
  obtain ⟨mem, hrun, hagree⟩ := hm _ _ _ hbody (htyped _ _ hbody) _ _ _ _ hcode hbodyCode
    (markEnv var.offset flag p) [] (markStates var.offset flag p (forWord first inc)
      (.zeroed pageSize)) (fun _ => rfl) rfl (mark_passes hw hflag _)
  rw [hoffset] at hrun
  have hfacts : LoopFacts (markEnv var.offset flag p) var.offset
      (strip (exprCode (WasmEmitter.link ⟨[(f, 0)], [(f, 0)]⟩) ts))
      (strip (exprCode (WasmEmitter.link ⟨[(f, 0)], [(f, 0)]⟩) tl))
      (strip (stepCode (WasmEmitter.link ⟨[(f, 0)], [(f, 0)]⟩) tstep))
      (BitVec.ofInt 32 last) (BitVec.ofInt 32 inc) (forWord first inc) := by
    refine ⟨fun _ => rfl, ?_, (hstop.resolves _).2 _, (hstep.resolves _).2 _, forWord_succ⟩
    rw [forWord_zero]
    exact (hstart.resolves _).2 _
  have hpass : ∀ n i, PassFacts (markEnv var.offset flag p) var.offset n (ops [.call 0, .drop]) []
      (forWord first inc) (markStates var.offset flag p (forWord first inc) (.zeroed pageSize)) i :=
    mark_facts hflag hfit
  constructor
  · -- a loop without such a value would not end
    by_contra hnone
    apply not_runs_forCode hfacts _ hpass _ hrun
    intro i
    by_contra htrue
    exact hnone ⟨i, by simpa using htrue⟩
  · intro k hbefore hafter
    have hk := runs_forCode hfacts hbefore hafter (fun i _ => ⟨0, fun n _ => hpass n i⟩)
      (hpass 0 0).fits (hpass 0 k).fits
    have hend := hk.unique hrun
    injection hend with hend
    have hzero : (Memory.zeroed pageSize).byte flag = 0 := rfl
    rw [← markStates_flag hflag hzero k, ← markStates_flag hflag hzero]
    rw [hw] at hagree
    have hmem : mem = (markStates var.offset flag p (forWord first inc) (.zeroed pageSize) k).2.set
        var.offset 4 (forWord first inc k).toNat := by
      injection hend with _ _ hmem
      exact hmem.symm
    have hbyte := hagree.2 flag (by omega)
    rw [hmem, Memory.byte_set_of_outside (by omega)] at hbyte
    rw [hbyte]

/-- The signed test of a FOR as meant stops after its values. -/
theorem ForMeant.stopsInTime (hm : ForMeant b tc name start stop step var first last inc)
    (h : ConstantFor b tc name start stop step var first last inc) (hf : tc.functions ≠ []) :
    StopsInTime first last inc := by
  obtain ⟨hw, -⟩ := hm.fourBytes h
  have hends := (hm.marked h hf 0).1
  -- the loop ends at the value number `k`, the first one that the test rejects
  obtain ⟨k, hafter, hbefore⟩ : ∃ k, (BitVec.ofInt 32 last).slt (forWord first inc k) = true ∧
      ∀ i < k, (BitVec.ofInt 32 last).slt (forWord first inc i) = false := by
    refine ⟨Nat.find hends, Nat.find_spec hends, ?_⟩
    intro i hi
    simpa using Nat.find_min hends hi
  have hcount : k = forCount first last inc := by
    rcases Nat.lt_trichotomy k (forCount first last inc) with hlt | heq | hgt
    · -- the rejected word would have to be among the accepted ones
      have hmark := (hm.marked h hf (forWord first inc k)).2 k hbefore hafter
      obtain ⟨i, hi, hsame⟩ := hmark.2 ⟨k, hlt, rfl⟩
      have hfalse := hbefore i hi
      rw [hsame, hafter] at hfalse
      cases hfalse
    · exact heq
    · -- the last accepted word would come earlier, with the rejected one after it
      obtain ⟨k, rfl⟩ : ∃ j, k = j + 1 := ⟨k - 1, by omega⟩
      have hmark := (hm.marked h hf (forWord first inc k)).2 (k + 1) hbefore hafter
      obtain ⟨i, hi, hsame⟩ := hmark.1 ⟨k, by omega, rfl⟩
      have hfalse := hbefore (i + 1) (by omega)
      rw [forWord_succ, hsame, ← forWord_succ, hafter] at hfalse
      cases hfalse
  subst hcount
  exact (stopsInTime_iff (h.sameType hw) h.nonzero).1 ⟨hbefore, hafter⟩

end Necessary

/-- The scope of a POU with the one variable `i`. -/
def loopScope (ty : DataType) : TypeChecker :=
  { TypeChecker.new with symbols := ⟨[("i", ⟨"i", ty, .var, 0x100, ty.storage, false⟩)], []⟩ }

theorem pushesFrom_literal (b : Build) (tc : TypeChecker) (v : Int) (hlow : -128 ≤ v)
    (hhigh : v ≤ 127) : PushesFrom b tc (.literal (.integer v)) v := by
  have hbits : literalBits v = 8 := by
    rw [literalBits, if_pos ⟨hlow, hhigh⟩]
  refine ⟨.literal (.integer v 8) .sint, ?_, ?_⟩
  · rw [TypeChecker.checkExpr, checkLiteral, hbits]
    rfl
  · intro emitter s
    exact ⟨_, ((lowerExpr_emits (e := emitter) _).treeOf_iff _ _).2 ⟨rfl, rfl⟩, fun _ _ _ => rfl⟩

theorem constantFor_ten (ty : DataType) (hint : ty.isInt32 = true) (hone : ty.Holds 1)
    (hten : ty.Holds 10) : ConstantFor .debug (loopScope ty) "i" (.literal (.integer 1))
      (.literal (.integer 10)) none ⟨"i", ty, .var, 0x100, ty.storage, false⟩ 1 10 1 where
  lookup := rfl
  integer := hint
  start := pushesFrom_literal _ _ 1 (by decide) (by decide)
  stop := pushesFrom_literal _ _ 10 (by decide) (by decide)
  step := rfl
  holdsFirst := hone
  holdsLast := hten
  holdsBy := hone
  nonzero := by decide

end VirtualPlc.Compiler
