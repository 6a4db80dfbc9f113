import VirtualPlc.Compiler.Storage
import VirtualPlc.Compiler.Branching
import VirtualPlc.Compiler.ForLoop
import VirtualPlc.Compiler.Jumps

/-!
# Meaning of the generated statements

The generated code of plain statements does what the statements mean (`simulates_stmts`): from a
memory that represents a store it leads, under the same bound on the passes of its loops, to a
memory that represents the resulting store, and it branches, returns, traps and exceeds the bound
together with the reference semantics. The only further condition is that its jumps stand where the
lowered branches lead as they have to (`stmtsFit`).
-/

set_option autoImplicit false

namespace VirtualPlc.Compiler

open VirtualPlc.Word VirtualPlc.Wasm VirtualPlc.Control

/-- What the code of a POU relies on: its scope and its environment. -/
structure Setting (tc : TypeChecker) (env : Env Bounds) (link : String → Bool → Nat)
    (answers : Answers) (mem₀ : Memory) : Prop where
  hosts : tc.KnowsHosts
  placed : tc.symbols.Placed mem₀.size
  calls : AnswersCalls env link answers fun mem => ∃ ρ, Represents tc.symbols mem₀ ρ mem
  guard : ∀ a, env.guard a = false

/-- A state between statements: the operands of the start, the locals of the function, and a memory
that represents the store. -/
structure Related (symbols : SymbolTable) (mem₀ : Memory) (st : List Value) (count : Nat)
    (ρ : Store) (s : State) : Prop where
  stack : s.stack = st
  locals : s.locals.length = count
  mem : Represents symbols mem₀ ρ s.mem

/-- A state at a return. -/
def Returned (symbols : SymbolTable) (mem₀ : Memory) (ρ : Store) (s : State) : Prop :=
  Represents symbols mem₀ ρ s.mem

/-- The fault for a stop of the reference semantics. -/
def RunError.fault : RunError → Fault
  | .trap => .trap
  | .unsupported => .stuck

/-- The standing of code that stands in its loops as `n` says; with `tail` no code follows it. -/
def Nest.standing (n : Nest) (tail : Bool) : Standing where
  depth := n.conds
  slides := tail = true ∧ (n.conds = 0 ∨ n.last = true)
  jumps := if n.conds = 0 then n.inWhile = true else n.last = true

/-- The outcome is what the signal means. -/
abbrev Simulates (symbols : SymbolTable) (mem₀ : Memory) (st : List Value) (count : Nat) (n : Nest)
    (tail : Bool) : Signal RunError Store → Outcome Fault State → Prop :=
  Matches (Related symbols mem₀ st count) (Returned symbols mem₀) RunError.fault (n.standing tail)

section Frames

variable {symbols : SymbolTable} {env : Env Bounds} {link : String → Bool → Nat} {answers : Answers}
  {mem₀ : Memory} {st : List Value} {count : Nat} {ρ : Store} {s : State} {n : Nest} {tail : Bool}

theorem Related.mk' {l : List Value} {mem : Memory} (hl : l.length = count)
    (h : Represents symbols mem₀ ρ mem) : Related symbols mem₀ st count ρ ⟨st, l, mem⟩ :=
  ⟨rfl, hl, h⟩

/-- Related states by their parts. -/
theorem Related.exists_eq (h : Related symbols mem₀ st count ρ s) :
    ∃ l mem, s = ⟨st, l, mem⟩ ∧ l.length = count ∧ Represents symbols mem₀ ρ mem := by
  obtain ⟨stack, l, mem⟩ := s
  obtain ⟨rfl, hl, hm⟩ := h
  exact ⟨l, mem, rfl, hl, hm⟩

/-- Unwinding to a state with the operands of the start keeps states related. -/
theorem Related.unwind {entry : State} (hentry : entry.stack = st) (ρ : Store) (s : State)
    (h : Related symbols mem₀ st count ρ s) :
    Related symbols mem₀ st count ρ ((machine env).unwind entry s) :=
  ⟨hentry, h.locals, h.mem⟩

/-- The end of an arm of a conditional. -/
theorem Simulates.arm {a : Signal RunError Store} {o : Outcome Fault State} {entry : State}
    (hentry : entry.stack = st) (h : Simulates symbols mem₀ st count (n.arm tail) true a o) :
    Simulates symbols mem₀ st count n tail a (o.label ((machine env).unwind entry)) := by
  have hlast : (n.arm tail).last = true → tail = true ∧ (n.conds = 0 ∨ n.last = true) := by
    intro hl
    simpa [Nest.arm] using hl
  apply Matches.arm h rfl
  · rintro ⟨-, hc | hl⟩
    · exact absurd hc (Nat.succ_ne_zero _)
    · exact hlast hl
  · intro hj
    have hl : (n.arm tail).last = true := hj
    exact hlast hl
  · exact Related.unwind hentry

/-- A conditional runs one of its arms. -/
theorem execSeq_condCode (x : BitVec 32) (thn : PlcCode) (els : Option PlcCode) (k : Nat)
    (l : List Value) (mem : Memory) :
    execSeq (machine env) k [condCode thn els] ⟨.i32 x :: st, l, mem⟩ =
      if x = 0 then
        (execSeq (machine env) k (els.getD []) ⟨st, l, mem⟩).label
          ((machine env).unwind ⟨st, l, mem⟩)
      else (execSeq (machine env) k thn ⟨st, l, mem⟩).label
        ((machine env).unwind ⟨st, l, mem⟩) := by
  rw [execSeq_singleton]
  cases els with
  | none =>
    rw [condCode, exec_ifThen, machine_test, State.test_cons]
    by_cases hx : x = 0
    · rw [if_pos hx, hx]
      rfl
    · rw [if_neg hx, bne_iff_ne.2 hx, choose_ok_true]
  | some code =>
    rw [condCode, exec_ifElse, machine_test, State.test_cons]
    by_cases hx : x = 0
    · rw [if_pos hx, hx]
      rfl
    · rw [if_neg hx, bne_iff_ne.2 hx, choose_ok_true]

/-- A loop in its block. -/
theorem execSeq_loop (code : PlcCode) (k : Nat) (s : State) :
    execSeq (machine env) k [.block [.loop code]] s =
      (iterate ((machine env).unwind s) (execSeq (machine env) k code) k s).label
        ((machine env).unwind s) := by
  rw [execSeq_singleton, exec_block, execSeq_singleton, exec_loop]

theorem stmtsCode_isEmpty : ∀ (stmts : List TypedStatement) (depth base : Nat),
    stmts.all TypedStatement.isEmpty = true → stmtsCode link stmts depth base = []
  | [], _, _, _ => rfl
  | stmt :: rest, depth, base, h => by
    rw [List.all_cons, Bool.and_eq_true] at h
    cases stmt with
    | empty => exact stmtsCode_isEmpty rest depth _ h.2
    | _ => cases h.1

/-- Statements in sequence. -/
theorem Simulates.andThen {a : Signal RunError Store} {o : Outcome Fault State} {k : Nat}
    {rest : List TypedStatement} {base : Nat} {f : Store → Signal RunError Store}
    (h : Simulates symbols mem₀ st count n (tail && rest.all TypedStatement.isEmpty) a o)
    (hf : ∀ ρ s, Related symbols mem₀ st count ρ s → Simulates symbols mem₀ st count n tail (f ρ)
      (execSeq (machine env) k (stmtsCode link rest n.loops base) s)) :
    Simulates symbols mem₀ st count n tail (a.andThen f)
      (o.andThen (execSeq (machine env) k (stmtsCode link rest n.loops base))) := by
  refine Matches.andThen (q := n.standing tail) h rfl ?_ ?_ hf
  · rintro ⟨ht, hc⟩
    rw [Bool.and_eq_true] at ht
    refine ⟨⟨ht.1, hc⟩, ?_⟩
    intro t
    rw [stmtsCode_isEmpty rest _ _ ht.2]
    rfl
  · exact fun hj => hj

end Frames

/-! ## Values in statements -/

section Values

variable {b : Build} {tc : TypeChecker} {env : Env Bounds} {link : String → Bool → Nat}
  {answers : Answers} {mem₀ mem : Memory} {st l : List Value} {ρ : Store}

/-- Code after the code of a plain expression. -/
theorem Setting.execSeq_value (hs : Setting tc env link answers mem₀) {e : Expression}
    {t : TypedExpr} (hplain : e.plain tc.symbols.types = true) (ht : tc.checkExpr b e = .ok t)
    (hm : Represents tc.symbols mem₀ ρ mem) (k : Nat) (rest : PlcCode) :
    execSeq (machine env) k (exprCode link t ++ rest) ⟨st, l, mem⟩ =
      (e.eval answers ρ).elim (.abort .trap) fun v =>
        execSeq (machine env) k rest ⟨.i32 (BitVec.ofInt 32 v) :: st, l, mem⟩ := by
  rw [execSeq_append, execSeq_plain hs.hosts hs.placed hs.calls ⟨ρ, hm⟩ hm e hplain ht]
  cases e.eval answers ρ <;> rfl

variable {R Q : Store → State → Prop} {p : Standing} {v? : Option Int}
  {f : Int → Signal RunError Store} {g : Int → Outcome Fault State}

theorem Matches.value (h : ∀ v, v? = some v → Matches R Q RunError.fault p (f v) (g v)) :
    Matches R Q RunError.fault p (withValue v? f) (v?.elim (.abort .trap) g) := by
  cases v? with
  | none => rfl
  | some v => exact h v rfl

theorem MatchesPass.value (h : ∀ v, v? = some v → MatchesPass R Q RunError.fault (f v) (g v)) :
    MatchesPass R Q RunError.fault (withValue v? f) (v?.elim (.abort .trap) g) := by
  cases v? with
  | none => rfl
  | some v => exact h v rfl

/-- The control variable of a FOR. -/
theorem Represents.word (h : Represents tc.symbols mem₀ ρ mem) {name : String} {info : SymbolInfo}
    (hv : tc.symbols.Plain name info) (hty : info.dataType = .dint) :
    mem.value info.offset 4 = (BitVec.ofInt 32 (ρ name)).toNat := by
  have hvalue := h.value hv
  rw [hty] at hvalue
  have hlt : mem.value info.offset 4 < 2 ^ 32 := mem.value_lt 4 info.offset
  rw [← hvalue]
  show _ = (BitVec.ofInt 32 (BitVec.ofNat 32 (mem.value info.offset 4)).toInt).toNat
  rw [BitVec.ofInt_toInt, BitVec.toNat_ofNat, Nat.mod_eq_of_lt hlt]

/-- Storing a DINT keeps the whole word. -/
theorem Represents.assignWord (hp : tc.symbols.Placed mem₀.size)
    (h : Represents tc.symbols mem₀ ρ mem)
    {name : String} {info : SymbolInfo} (hv : tc.symbols.Plain name info)
    (hty : info.dataType = .dint)
    (v : Int) : Represents tc.symbols mem₀ (ρ.assign tc.symbols.types name v)
      (mem.set info.offset 4 (BitVec.ofInt 32 v).toNat) := by
  have hassign := h.assign hp hv (v := v) (fun hb => by rw [hty] at hb; cases hb)
  rw [hty] at hassign
  exact hassign

/-- The labels of a plain branch. -/
theorem hits_eq {v : Int} (hv : InSigned 32 v) : ∀ (values : List CaseValue) {labels : List Int},
    values.all CaseValue.plain = true → checkCaseValues values = .ok labels →
      hits (BitVec.ofInt 32 v) labels = values.any (·.covers v)
  | [], _, _, h => by
    cases h
    rfl
  | .single e :: rest, labels, hp, h => by
    rw [List.all_cons, Bool.and_eq_true] at hp
    rw [checkCaseValues] at h
    obtain ⟨u, hu, h⟩ := bind_eq_ok.1 h
    obtain ⟨us, hus, h⟩ := bind_eq_ok.1 h
    cases h
    have hrest := hits_eq hv rest hp.2 hus
    rw [hits, List.any_cons, List.any_cons, ← hrest, hits]
    congr 1
    obtain ⟨hp, -⟩ := hp
    unfold CaseValue.plain at hp
    split at hp
    · next w hw =>
      obtain rfl := CaseValue.single.inj hw
      cases hu
      rw [CaseValue.covers, beq_ofInt (by decide) hv (of_decide_eq_true hp)]
      rfl
    · cases hp
  | .range .. :: rest, _, hp, _ => by
    rw [List.all_cons, Bool.and_eq_true] at hp
    cases hp.1

/-- A plain step is positive. -/
theorem plainStep_pos {step : Option Expression} (h : plainStep step = true)
    (answers : Answers) :
    ∃ inc, (∀ ρ, stepValue answers ρ step = some inc) ∧ 0 < inc ∧ InSigned 32 inc := by
  cases step with
  | none => exact ⟨1, fun _ => rfl, by decide, by decide⟩
  | some e =>
    unfold plainStep at h
    split at h
    · next heq => cases heq
    · next v heq =>
      obtain rfl := Option.some.inj heq
      rw [Bool.and_eq_true] at h
      exact ⟨v, fun _ => rfl, of_decide_eq_true h.1, of_decide_eq_true h.2⟩
    · cases h

/-- The code of a plain step pushes it. -/
theorem Setting.execSeq_step (hs : Setting tc env link answers mem₀) {step : Option Expression}
    {tstep : Option TypedExpr} (hplain : plainStep step = true)
    (ht : tc.checkOptional b step = .ok tstep) (hm : Represents tc.symbols mem₀ ρ mem) (k : Nat)
    {inc : Int} (hinc : stepValue answers ρ step = some inc) (rest : PlcCode) :
    execSeq (machine env) k (stepCode link tstep ++ rest) ⟨st, l, mem⟩ =
      execSeq (machine env) k rest ⟨.i32 (BitVec.ofInt 32 inc) :: st, l, mem⟩ := by
  cases step with
  | none =>
    cases ht
    cases hinc
    rfl
  | some e =>
    obtain ⟨t, he, ht⟩ := bind_eq_ok.1 ht
    cases ht
    have hp : e.plain tc.symbols.types = true := by
      unfold plainStep at hplain
      split at hplain
      · next heq => cases heq
      · next v heq =>
        obtain rfl := Option.some.inj heq
        rw [Bool.and_eq_true] at hplain
        exact hplain.2
      · cases hplain
    have heval : e.eval answers ρ = some inc := hinc
    rw [stepCode, hs.execSeq_value hp he hm, heval]
    rfl

/-- The control variable of a FOR lies in the memory. -/
theorem Setting.fits_dint (hs : Setting tc env link answers mem₀) {name : String}
    {info : SymbolInfo} (hv : tc.symbols.Plain name info) (hty : info.dataType = .dint)
    (hm : Represents tc.symbols mem₀ ρ mem) : info.offset + 4 ≤ mem.size := by
  have hfits := hs.placed.fits hv
  rw [hty] at hfits
  rw [hm.size]
  exact hfits

/-- The end of a pass of a FOR: the step is added to the variable. -/
theorem execSeq_increment (hs : Setting tc env link answers mem₀) {name : String}
    {info : SymbolInfo} (hv : tc.symbols.Plain name info) (hty : info.dataType = .dint)
    {step : Option Expression} {tstep : Option TypedExpr} (hstep : plainStep step = true)
    (htstep : tc.checkOptional b step = .ok tstep) {inc : Int}
    (hinc : stepValue answers ρ step = some inc) (hm : Represents tc.symbols mem₀ ρ mem)
    (k : Nat) :
    execSeq (machine env) k
        (ops [.const (.i32 0), .const (.i32 0), .load .i32 info.offset] ++
          (stepCode link tstep ++ ops [.i32Bin .add, .store .i32 info.offset, .br 0]))
        ⟨st, l, mem⟩ =
      .br 0 ⟨st, l, mem.set info.offset 4 (BitVec.ofInt 32 (ρ name + inc)).toNat⟩ := by
  have hfit := hs.fits_dint hv hty hm
  have hload : execSeq (machine env) k
      (ops [.const (.i32 0), .const (.i32 0), .load .i32 info.offset]) ⟨st, l, mem⟩ =
        .normal ⟨.i32 (BitVec.ofInt 32 (ρ name)) :: .i32 0 :: st, l, mem⟩ :=
    execSeq_loadWord hfit (hm.word hv hty)
  have hadd : stepOp env (.i32Bin .add) ⟨.i32 (BitVec.ofInt 32 inc) ::
      .i32 (BitVec.ofInt 32 (ρ name)) :: .i32 0 :: st, l, mem⟩ =
        .normal ⟨.i32 (BitVec.ofInt 32 (ρ name + inc)) :: .i32 0 :: st, l, mem⟩ := by
    rw [BitVec.ofInt_add]
    rfl
  rw [execSeq_append, hload, Outcome.andThen_normal, hs.execSeq_step hstep htstep hm k hinc,
    execSeq_ops_cons, machine_step, hadd, Outcome.andThen_normal, execSeq_ops_cons, machine_step,
    stepOp_storeWord hs.guard hfit]
  rfl

end Values

/-! ## Statements -/

section Statements

variable {b : Build} {tc : TypeChecker} {env : Env Bounds} {link : String → Bool → Nat}
  {answers : Answers} {mem₀ : Memory} {st : List Value} {count k : Nat}

/-- From every state of a store the code does what `f` does with the store. -/
abbrev SimulatesCode (symbols : SymbolTable) (env : Env Bounds) (mem₀ : Memory) (st : List Value)
    (count k : Nat) (n : Nest) (tail : Bool) (f : Store → Signal RunError Store)
    (code : PlcCode) : Prop :=
  ∀ ρ s, Related symbols mem₀ st count ρ s →
    Simulates symbols mem₀ st count n tail (f ρ) (execSeq (machine env) k code s)

/-- A conditional on the truth value `x`. -/
theorem simulates_cond {n : Nest} {tail : Bool} {thn : PlcCode} {els : Option PlcCode}
    {p : Prop} [Decidable p] {x : BitVec 32} (hx : x = 0 ↔ ¬ p) {l : List Value} {mem : Memory}
    {yes no : Signal RunError Store}
    (hthn : Simulates tc.symbols mem₀ st count (n.arm tail) true yes
      (execSeq (machine env) k thn ⟨st, l, mem⟩))
    (hels : Simulates tc.symbols mem₀ st count (n.arm tail) true no
      (execSeq (machine env) k (els.getD []) ⟨st, l, mem⟩)) :
    Simulates tc.symbols mem₀ st count n tail (if p then yes else no)
      (execSeq (machine env) k [condCode thn els] ⟨.i32 x :: st, l, mem⟩) := by
  rw [execSeq_condCode]
  by_cases hp : p
  · rw [if_pos hp, if_neg (fun h0 => hx.1 h0 hp)]
    exact Simulates.arm rfl hthn
  · rw [if_neg hp, if_pos (hx.2 hp)]
    exact Simulates.arm rfl hels

/-- A conditional on a plain condition does what its arms do. -/
theorem simulates_if (hs : Setting tc env link answers mem₀) {n : Nest} {tail : Bool}
    {condition : Expression} {t : TypedExpr} (hplain : condition.plain tc.symbols.types = true)
    (ht : tc.checkExpr b condition = .ok t) {yes no : Store → Signal RunError Store} {thn : PlcCode}
    {els : Option PlcCode}
    (hthn : SimulatesCode tc.symbols env mem₀ st count k (n.arm tail) true yes thn)
    (hels : SimulatesCode tc.symbols env mem₀ st count k (n.arm tail) true no (els.getD [])) :
    SimulatesCode tc.symbols env mem₀ st count k n tail
      (fun ρ => withValue (condition.eval answers ρ) fun v => if v ≠ 0 then yes ρ else no ρ)
      (exprCode link t ++ [condCode thn els]) := by
  intro ρ s h
  obtain ⟨l, mem, rfl, hl, hm⟩ := h.exists_eq
  rw [hs.execSeq_value hplain ht hm]
  apply Matches.value
  intro v hv
  have hv0 : BitVec.ofInt 32 v = 0 ↔ ¬ v ≠ 0 :=
    (ofInt_eq_zero_iff (eval_range hs.hosts hm condition hplain ht hv).1).trans not_not.symm
  exact simulates_cond hv0 (hthn ρ _ h) (hels ρ _ h)

/-- A loop in its block does what repeating its passes does. -/
theorem simulates_loop {n : Nest} {tail : Bool} {pass : Store → Signal RunError Store}
    {code : PlcCode}
    (hpass : ∀ ρ s, Related tc.symbols mem₀ st count ρ s →
      MatchesPass (Related tc.symbols mem₀ st count) (Returned tc.symbols mem₀) RunError.fault
        (pass ρ) (execSeq (machine env) k code s)) :
    SimulatesCode tc.symbols env mem₀ st count k n tail (passes pass k) [.block [.loop code]] := by
  intro ρ s h
  rw [execSeq_loop]
  exact Matches.loop hpass (Related.unwind h.stack) k h

theorem simulates_while (hs : Setting tc env link answers mem₀) {n : Nest} {tail : Bool}
    {condition : Expression} {t : TypedExpr} (hplain : condition.plain tc.symbols.types = true)
    (ht : tc.checkExpr b condition = .ok t) {body : Store → Signal RunError Store} {code : PlcCode}
    (hbody : SimulatesCode tc.symbols env mem₀ st count k (n.loop true) true body code) :
    SimulatesCode tc.symbols env mem₀ st count k n tail
      (passes (fun ρ => withValue (condition.eval answers ρ) fun v =>
        if v ≠ 0 then body ρ else .exit ρ) k) (whileCode (exprCode link t) code) := by
  apply simulates_loop
  intro ρ s h
  obtain ⟨l, mem, rfl, hl, hm⟩ := h.exists_eq
  rw [hs.execSeq_value hplain ht hm]
  apply MatchesPass.value
  intro v hv
  have hv0 : BitVec.ofInt 32 v = 0 ↔ v = 0 :=
    ofInt_eq_zero_iff (eval_range hs.hosts hm condition hplain ht hv).1
  by_cases h0 : v = 0
  · rw [if_neg (fun hne => hne h0), h0]
    exact ⟨⟨st, l, mem⟩, rfl, h⟩
  · have htest : execSeq (machine env) k (ops [.i32Eqz, .brIf 1])
        ⟨.i32 (BitVec.ofInt 32 v) :: st, l, mem⟩ = .normal ⟨st, l, mem⟩ := by
      rw [execSeq_ops_cons, machine_step, stepOp_i32Eqz,
        beq_eq_false_iff_ne.2 (fun he => h0 (hv0.1 he))]
      rfl
    rw [if_pos h0, execSeq_append, htest, Outcome.andThen_normal, execSeq_append]
    exact (hbody ρ _ h).repeated rfl

theorem simulates_repeat (hs : Setting tc env link answers mem₀) {n : Nest} {tail : Bool}
    {untilCond : Expression} {t : TypedExpr} (hplain : untilCond.plain tc.symbols.types = true)
    (ht : tc.checkExpr b untilCond = .ok t) {body : Store → Signal RunError Store} {code : PlcCode}
    (hbody : SimulatesCode tc.symbols env mem₀ st count k (n.loop false) true body code) :
    SimulatesCode tc.symbols env mem₀ st count k n tail
      (passes (fun ρ => (body ρ).settle.andThen fun ρ =>
        withValue (untilCond.eval answers ρ) fun v => if v ≠ 0 then .exit ρ else .next ρ) k)
      (repeatCode code (exprCode link t)) := by
  apply simulates_loop
  intro ρ s h
  rw [execSeq_append]
  apply (hbody ρ s h).settle rfl (fun hj => Bool.noConfusion hj)
  intro ρ s h
  obtain ⟨l, mem, rfl, hl, hm⟩ := h.exists_eq
  rw [hs.execSeq_value hplain ht hm]
  apply MatchesPass.value
  intro v hv
  have hv0 : BitVec.ofInt 32 v = 0 ↔ v = 0 :=
    ofInt_eq_zero_iff (eval_range hs.hosts hm untilCond hplain ht hv).1
  rw [execSeq_ops_cons, machine_step, stepOp_brIf]
  by_cases h0 : v = 0
  · rw [if_neg (fun hne => hne h0), if_pos (hv0.2 h0)]
    exact ⟨⟨st, l, mem⟩, rfl, h⟩
  · rw [if_pos h0, if_neg (fun he => h0 (hv0.1 he))]
    exact ⟨⟨st, l, mem⟩, rfl, h⟩

/-- A pass of a FOR: it ends the loop where the variable is past the final value, and else runs the
body and adds the step. -/
theorem simulates_forPass (hs : Setting tc env link answers mem₀) {n : Nest} {name : String}
    {info : SymbolInfo} (hv : tc.symbols.Plain name info) (hty : info.dataType = .dint)
    {stop : Expression} {step : Option Expression} {tl : TypedExpr} {tstep : Option TypedExpr}
    (hstop : stop.plain tc.symbols.types = true) (hstep : plainStep step = true)
    (htl : tc.checkExpr b stop = .ok tl) (htstep : tc.checkOptional b step = .ok tstep)
    {body : Store → Signal RunError Store} {code : PlcCode}
    (hbody : SimulatesCode tc.symbols env mem₀ st count k (n.loop false) true body code)
    (ρ : Store) (s : State) (h : Related tc.symbols mem₀ st count ρ s) :
    MatchesPass (Related tc.symbols mem₀ st count) (Returned tc.symbols mem₀) RunError.fault
      (withValue (stop.eval answers ρ) fun final =>
        withValue (stepValue answers ρ step) fun inc =>
          if pastFinal inc final (ρ name) then .exit ρ
          else (body ρ).settle.andThen fun ρ =>
            .next (ρ.assign tc.symbols.types name (ρ name + inc)))
      (execSeq (machine env) k
        (forLoopCode info.offset (exprCode link tl) (stepCode link tstep) code) s) := by
  obtain ⟨l, mem, rfl, hl, hm⟩ := h.exists_eq
  obtain ⟨inc, hinc, hpos, -⟩ := plainStep_pos hstep answers
  rw [forLoopCode, execSeq_append, execSeq_loadWord (hs.fits_dint hv hty hm) (hm.word hv hty),
    Outcome.andThen_normal, hs.execSeq_value hstop htl hm]
  apply MatchesPass.value
  intro final hfinal
  have hfr := (eval_range hs.hosts hm stop hstop htl hfinal).1
  have hslt : (BitVec.ofInt 32 final).slt (BitVec.ofInt 32 (ρ name)) =
      decide (final < ρ name) := slt_ofInt (by decide) hfr (hm.inSigned hv)
  -- the code compares as an upward FOR has to, and the step is positive
  have hpast : pastFinal inc final (ρ name) = decide (final < ρ name) := by
    rw [pastFinal, if_pos (by omega)]
  rw [hinc, withValue, hpast, execSeq_append, execSeq_ops_cons, machine_step, stepOp_i32Rel,
    IntRel.eval, hslt, Outcome.andThen_normal, execSeq_ops_cons, machine_step]
  by_cases hgt : final < ρ name
  · rw [if_pos (decide_eq_true hgt), decide_eq_true hgt]
    exact ⟨⟨st, l, mem⟩, rfl, h⟩
  · rw [if_neg (by simpa using hgt), decide_eq_false hgt]
    have hbrIf : stepOp env (.brIf 1) ⟨boolValue false :: st, l, mem⟩ =
        .normal ⟨st, l, mem⟩ := rfl
    rw [hbrIf, Outcome.andThen_normal, execSeq_ops_nil, Outcome.andThen_normal, execSeq_append]
    apply (hbody ρ _ h).settle rfl (fun hj => Bool.noConfusion hj)
    intro ρ' s' h'
    obtain ⟨l', mem', rfl, hl', hm'⟩ := h'.exists_eq
    rw [execSeq_increment hs hv hty hstep htstep (hinc ρ') hm' k]
    exact ⟨_, rfl, Related.mk' hl' (hm'.assignWord hs.placed hv hty _)⟩

theorem simulates_for (hs : Setting tc env link answers mem₀) {n : Nest} {tail : Bool}
    {name : String} {info : SymbolInfo} (hv : tc.symbols.Plain name info)
    (hty : info.dataType = .dint)
    {start stop : Expression} {step : Option Expression} {ts tl : TypedExpr}
    {tstep : Option TypedExpr} (hstart : start.plain tc.symbols.types = true)
    (hstop : stop.plain tc.symbols.types = true) (hstep : plainStep step = true)
    (hts : tc.checkExpr b start = .ok ts) (htl : tc.checkExpr b stop = .ok tl)
    (htstep : tc.checkOptional b step = .ok tstep) {body : Store → Signal RunError Store}
    {code : PlcCode}
    (hbody : SimulatesCode tc.symbols env mem₀ st count k (n.loop false) true body code) :
    SimulatesCode tc.symbols env mem₀ st count k n tail
      (fun ρ => withValue (start.eval answers ρ) fun first =>
        passes (fun ρ =>
          withValue (stop.eval answers ρ) fun final =>
            withValue (stepValue answers ρ step) fun inc =>
              if pastFinal inc final (ρ name) then .exit ρ
              else (body ρ).settle.andThen fun ρ =>
                .next (ρ.assign tc.symbols.types name (ρ name + inc)))
          k (ρ.assign tc.symbols.types name first))
      (forCode (asU32 info.offset) (exprCode link ts) (exprCode link tl) (stepCode link tstep)
        code) := by
  have hsmall := hs.placed.small
  have hoffset := hs.placed.fits hv
  rw [asU32_of_lt (by omega), forCode_eq]
  intro ρ s h
  obtain ⟨l, mem, rfl, hl, hm⟩ := h.exists_eq
  have hpush : execSeq (machine env) k (ops [.const (.i32 0)]) ⟨st, l, mem⟩ =
      .normal ⟨.i32 0 :: st, l, mem⟩ := rfl
  rw [execSeq_append, hpush, Outcome.andThen_normal, hs.execSeq_value hstart hts hm]
  apply Matches.value
  intro first hfirst
  have hstore : execSeq (machine env) k (ops [.store .i32 info.offset])
      ⟨.i32 (BitVec.ofInt 32 first) :: .i32 0 :: st, l, mem⟩ =
        .normal ⟨st, l, mem.set info.offset 4 (BitVec.ofInt 32 first).toNat⟩ := by
    rw [execSeq_ops_cons, machine_step, stepOp_storeWord hs.guard (hs.fits_dint hv hty hm)]
    rfl
  rw [execSeq_append, hstore, Outcome.andThen_normal]
  exact simulates_loop (simulates_forPass hs hv hty hstop hstep htl htstep hbody) _ _
    (Related.mk' hl (hm.assignWord hs.placed hv hty first))

theorem simulates_assignment (hs : Setting tc env link answers mem₀) {n : Nest} {tail : Bool}
    {name : String} {info : SymbolInfo} (hv : tc.symbols.Plain name info) {value : Expression}
    {t : TypedExpr} (hplain : value.plain tc.symbols.types = true)
    (ht : tc.checkExpr b value = .ok t)
    (hassign : checkAssignmentTypes info.dataType t.ty = .ok ()) :
    SimulatesCode tc.symbols env mem₀ st count k n tail
      (fun ρ => withValue (value.eval answers ρ) fun v => .next (ρ.assign tc.symbols.types name v))
      (ops [.const (.i32 (BitVec.ofNat 32 info.offset))] ++
        (exprCode link t ++ ops [storeOp info.dataType])) := by
  have hfit := hs.placed.fits hv
  have hsmall := hs.placed.small
  have hstype := isSmall_of_isPlain hv.plain
  have haddr : (BitVec.ofNat 32 info.offset).toNat + 0 = info.offset := by
    rw [Nat.add_zero, BitVec.toNat_ofNat, Nat.mod_eq_of_lt (by omega)]
  intro ρ s h
  obtain ⟨l, mem, rfl, hl, hm⟩ := h.exists_eq
  have hpush : execSeq (machine env) k (ops [.const (.i32 (BitVec.ofNat 32 info.offset))])
      ⟨st, l, mem⟩ = .normal ⟨.i32 (BitVec.ofNat 32 info.offset) :: st, l, mem⟩ := rfl
  rw [execSeq_append, hpush, Outcome.andThen_normal, hs.execSeq_value hplain ht hm]
  apply Matches.value
  intro v hval
  have hbool : info.dataType = .bool → v = 0 ∨ v = 1 := by
    intro hb
    apply (eval_range hs.hosts hm value hplain ht hval).2
    rw [checkAssignmentTypes, hb] at hassign
    split at hassign
    · next he => exact he.symm
    · cases hassign
  have htype : info.dataType.valType = .i32 := by
    cases hd : info.dataType <;> rw [hd] at hstype <;> first | rfl | cases hstype
  have hstore : execSeq (machine env) k (ops [storeOp info.dataType])
      ⟨.i32 (BitVec.ofInt 32 v) :: .i32 (BitVec.ofNat 32 info.offset) :: st, l, mem⟩ =
        .normal ⟨st, l, mem.set info.offset info.dataType.storage (BitVec.ofInt 32 v).toNat⟩ := by
    have hw : State.storeWith env
        ⟨.i32 (BitVec.ofInt 32 v) :: .i32 (BitVec.ofNat 32 info.offset) :: st, l, mem⟩ .i32 0
          info.dataType.storage = .normal _ :=
      storeWith_eq rfl (by rw [haddr, hm.size]; exact hfit)
        (Env.guarded_eq_false fun i _ _ => hs.guard i)
    rw [haddr] at hw
    rw [execSeq_ops_cons, machine_step, stepOp_storeOp, htype, ← storage_small hstype, hw]
    rfl
  rw [hstore]
  exact ⟨_, rfl, Related.mk' hl (hm.assign hs.placed hv hbool)⟩

theorem execSeq_localSet {i : Nat} {v : Value} {l : List Value} {mem : Memory}
    (h : i < l.length) : execSeq (machine env) k (ops [.localSet i]) ⟨v :: st, l, mem⟩ =
      .normal ⟨st, l.set i v, mem⟩ := by
  rw [execSeq_ops_cons, machine_step, stepOp]
  show Outcome.andThen (if i < l.length then _ else _) _ = _
  rw [if_pos h]
  rfl

/-- A CASE does what its branches do once the selector is in a local. -/
theorem simulates_case (hs : Setting tc env link answers mem₀) {n : Nest} {tail : Bool}
    {selector : Expression} {t : TypedExpr} (hplain : selector.plain tc.symbols.types = true)
    (ht : tc.checkExpr b selector = .ok t) {sel : Nat} (hsel : sel < count)
    {branches : Int → Store → Signal RunError Store} {code : PlcCode}
    (hbranches : ∀ (v : Int) (ρ : Store) (l : List Value) (mem : Memory), InSigned 32 v →
      l.length = count → Represents tc.symbols mem₀ ρ mem →
      l[sel]? = some (.i32 (BitVec.ofInt 32 v)) →
      Simulates tc.symbols mem₀ st count n tail (branches v ρ)
        (execSeq (machine env) k code ⟨st, l, mem⟩)) :
    SimulatesCode tc.symbols env mem₀ st count k n tail
      (fun ρ => withValue (selector.eval answers ρ) fun v => branches v ρ)
      (exprCode link t ++ (ops [.localSet sel] ++ code)) := by
  intro ρ s h
  obtain ⟨l, mem, rfl, hl, hm⟩ := h.exists_eq
  rw [hs.execSeq_value hplain ht hm]
  apply Matches.value
  intro v hv
  rw [execSeq_append, execSeq_localSet (by omega), Outcome.andThen_normal]
  exact hbranches v ρ _ mem (eval_range hs.hosts hm selector hplain ht hv).1
    (by rw [List.length_set]; exact hl) hm (List.getElem?_set_self (by omega))

theorem plain_dint {name : String} (h : tc.symbols.types name = some .dint) :
    ∃ info, tc.symbols.Plain name info ∧ info.dataType = .dint := by
  rw [SymbolTable.types] at h
  obtain ⟨info, hinfo, hty⟩ := Option.map_eq_some_iff.1 h
  exact ⟨info, ⟨hinfo, by rw [hty]; rfl⟩, hty⟩

/-- The statements of an ELSE that is left out. -/
theorem simulates_next {n : Nest} {tail : Bool} :
    SimulatesCode tc.symbols env mem₀ st count k n tail .next [] :=
  fun _ s h => ⟨s, rfl, h⟩

mutual
/-- The generated code of a plain statement does what the statement means. -/
theorem simulates_stmt (hs : Setting tc env link answers mem₀) : ∀ (stmt : Statement)
    {typed : TypedStatement} {inLoop : Bool} {n : Nest} {tail : Bool} {base : Nat},
    stmt.plain tc.symbols.types inLoop = true → tc.checkStatement b stmt = .ok typed →
    stmtFits typed n tail = true → (inLoop = true → 0 < n.loops) →
    base + stmtLocals typed ≤ count →
    SimulatesCode tc.symbols env mem₀ st count k n tail (stmt.run tc.symbols.types answers k)
      (stmtCode link typed n.loops base)
  | .assignment (.variable name) value, typed, inLoop, n, tail, base, hp, ht, hf, hin, hb => by
    simp only [Statement.plain, Bool.and_eq_true] at hp
    obtain ⟨info, hv⟩ := plainVariable_iff.1 hp.1
    rw [TypeChecker.checkStatement, checkExpr_variable hv.found] at ht
    obtain ⟨t, htarget, ht⟩ := bind_eq_ok.1 ht
    cases htarget
    obtain ⟨tv, htv, ht⟩ := bind_eq_ok.1 ht
    obtain ⟨⟨⟩, hassign, ht⟩ := bind_eq_ok.1 ht
    cases ht
    intro ρ s h
    rw [Statement.run]
    exact simulates_assignment hs hv hp.2 htv hassign ρ s h
  | .assignment (.literal _) _, _, _, _, _, _, hp, _, _, _, _
  | .assignment (.arrayAccess ..) _, _, _, _, _, _, hp, _, _, _, _
  | .assignment (.fieldAccess ..) _, _, _, _, _, _, hp, _, _, _, _
  | .assignment (.binary ..) _, _, _, _, _, _, hp, _, _, _, _
  | .assignment (.unary ..) _, _, _, _, _, _, hp, _, _, _, _
  | .assignment (.call ..) _, _, _, _, _, _, hp, _, _, _, _
  | .assignment (.paren _) _, _, _, _, _, _, hp, _, _, _, _ => by cases hp
  | .ifStmt condition thenBranch elsifBranches elseBranch, typed, inLoop, n, tail, base, hp, ht, hf,
      hin, hb => by
    -- the equations of these functions split ELSE, their definitions leave it to `simulates_else`
    rw [Statement.plain.eq_def, Bool.and_eq_true, Bool.and_eq_true, Bool.and_eq_true] at hp
    obtain ⟨hcond, hthen, helsif, helse⟩ := hp
    rw [TypeChecker.checkStatement.eq_def] at ht
    obtain ⟨tcond, htcond, ht⟩ := bind_eq_ok.1 ht
    obtain ⟨-, -, ht⟩ := bind_eq_ok.1 ht
    obtain ⟨tthen, htthen, ht⟩ := bind_eq_ok.1 ht
    obtain ⟨held, hheld, ht⟩ := bind_eq_ok.1 ht
    obtain ⟨tels, htels, ht⟩ := bind_eq_ok.1 ht
    obtain ⟨telsif, htelsif, ht⟩ := bind_eq_ok.1 ht
    cases ht
    rw [stmtFits.eq_def, Bool.and_eq_true] at hf
    rw [stmtLocals.eq_def] at hb
    dsimp only at hb
    intro ρ s h
    rw [Statement.run.eq_def, stmtCode.eq_def]
    refine simulates_if hs hcond htcond ?_ ?_ ρ s h
    · exact simulates_stmts hs thenBranch hthen htthen hf.1 hin (by omega)
    · refine simulates_elsifs hs elsifBranches (n := n.arm tail) helsif (hold_ok hheld htelsif) hf.2
        hin (by omega) ?_
      exact simulates_else hs elseBranch helse htels hin
        (by rw [Nat.add_assoc, Nat.add_assoc]; exact hb)
  | .caseStmt selector branches elseBranch, typed, inLoop, n, tail, base, hp, ht, hf, hin, hb => by
    rw [Statement.plain.eq_def, Bool.and_eq_true, Bool.and_eq_true] at hp
    obtain ⟨hsel, hbranches, helse⟩ := hp
    rw [TypeChecker.checkStatement.eq_def] at ht
    obtain ⟨tsel, htsel, ht⟩ := bind_eq_ok.1 ht
    obtain ⟨held, hheld, ht⟩ := bind_eq_ok.1 ht
    obtain ⟨tels, htels, ht⟩ := bind_eq_ok.1 ht
    obtain ⟨tbranches, htbranches, ht⟩ := bind_eq_ok.1 ht
    cases ht
    rw [stmtFits.eq_def] at hf
    rw [stmtLocals.eq_def] at hb
    dsimp only at hb
    intro ρ s h
    rw [Statement.run.eq_def, stmtCode.eq_def]
    refine simulates_case hs hsel htsel (by omega) ?_ ρ s h
    intro v ρ l mem hv hl hm hlocal
    refine simulates_branches hs branches hv hbranches (hold_ok hheld htbranches) hf hin
      (by omega) ?_
      ρ l mem hl hm hlocal
    exact simulates_else hs elseBranch helse htels hin
      (by rw [Nat.add_assoc, Nat.add_assoc]; exact hb)
  | .forStmt varName start stop step body, typed, inLoop, n, tail, base, hp, ht, hf, hin, hb => by
    simp only [Statement.plain, Bool.and_eq_true, beq_iff_eq] at hp
    obtain ⟨hty, hstart, hstop, hstep, hbody⟩ := hp
    obtain ⟨info, hv, hdint⟩ := plain_dint hty
    rw [TypeChecker.checkStatement, TypeChecker.checkForVariable, hv.found] at ht
    obtain ⟨_, hinfo, ht⟩ := bind_eq_ok.1 ht
    cases hinfo
    obtain ⟨ts, hts, ht⟩ := bind_eq_ok.1 ht
    obtain ⟨tl, htl, ht⟩ := bind_eq_ok.1 ht
    obtain ⟨tstep, htstep, ht⟩ := bind_eq_ok.1 ht
    obtain ⟨tbody, htbody, ht⟩ := bind_eq_ok.1 ht
    cases ht
    rw [stmtFits] at hf
    rw [stmtLocals] at hb
    intro ρ s h
    rw [Statement.run, stmtCode]
    exact simulates_for hs hv hdint hstart hstop hstep hts htl htstep
      (simulates_stmts hs body hbody htbody hf (fun _ => Nat.succ_pos _) hb) ρ s h
  | .whileStmt condition body, typed, inLoop, n, tail, base, hp, ht, hf, hin, hb => by
    simp only [Statement.plain, Bool.and_eq_true] at hp
    rw [TypeChecker.checkStatement] at ht
    obtain ⟨t, htcond, ht⟩ := bind_eq_ok.1 ht
    obtain ⟨-, -, ht⟩ := bind_eq_ok.1 ht
    obtain ⟨tbody, htbody, ht⟩ := bind_eq_ok.1 ht
    cases ht
    rw [stmtFits] at hf
    rw [stmtLocals] at hb
    intro ρ s h
    rw [Statement.run, stmtCode]
    exact simulates_while hs hp.1 htcond
      (simulates_stmts hs body hp.2 htbody hf (fun _ => Nat.succ_pos _) hb) ρ s h
  | .repeatStmt body untilCond, typed, inLoop, n, tail, base, hp, ht, hf, hin, hb => by
    simp only [Statement.plain, Bool.and_eq_true] at hp
    rw [TypeChecker.checkStatement] at ht
    obtain ⟨tbody, htbody, ht⟩ := bind_eq_ok.1 ht
    obtain ⟨t, htcond, ht⟩ := bind_eq_ok.1 ht
    obtain ⟨-, -, ht⟩ := bind_eq_ok.1 ht
    cases ht
    rw [stmtFits] at hf
    rw [stmtLocals] at hb
    intro ρ s h
    rw [Statement.run, stmtCode]
    exact simulates_repeat hs hp.2 htcond
      (simulates_stmts hs body hp.1 htbody hf (fun _ => Nat.succ_pos _) hb) ρ s h
  | .exitStmt, typed, inLoop, n, tail, base, hp, ht, hf, hin, _ => by
    cases ht
    have hpos := hin hp
    rw [stmtFits, Bool.or_eq_true, beq_iff_eq, beq_iff_eq] at hf
    intro ρ s h
    refine ⟨s, ?_, h⟩
    show Outcome.br n.loops s = .br (n.conds + 1) s
    rw [hf.resolve_left (by omega)]
  | .continueStmt, typed, inLoop, n, tail, base, hp, ht, hf, hin, _ => by
    cases ht
    have hpos := hin hp
    rw [stmtFits, Bool.or_eq_true, beq_iff_eq] at hf
    have hjumps := hf.resolve_left (by omega)
    intro ρ s h
    refine ⟨s, .inr ⟨?_, rfl⟩, h⟩
    show if n.conds = 0 then n.inWhile = true else n.last = true
    split at hjumps <;> rename_i hc
    · rwa [if_pos hc]
    · rwa [if_neg hc]
  | .returnStmt none, typed, inLoop, n, tail, base, _, ht, _, _, _ => by
    cases ht
    intro ρ s h
    exact ⟨s, rfl, h.mem⟩
  | .returnStmt (some e), typed, inLoop, n, tail, base, hp, ht, _, _, _ => by
    rw [TypeChecker.checkStatement] at ht
    obtain ⟨tv, htv, ht⟩ := bind_eq_ok.1 ht
    obtain ⟨t, he, htv⟩ := bind_eq_ok.1 htv
    cases htv
    cases ht
    intro ρ s h
    obtain ⟨l, mem, rfl, hl, hm⟩ := h.exists_eq
    rw [Statement.run, stmtCode, returnCode, hs.execSeq_value hp he hm]
    apply Matches.value
    intro v _
    exact ⟨_, rfl, hm⟩
  | .callStmt .., _, _, _, _, _, hp, _, _, _, _ => by cases hp
  | .empty, typed, inLoop, n, tail, base, _, ht, _, _, _ => by
    cases ht
    intro ρ s h
    exact ⟨s, rfl, h⟩
/-- The statements of a list. -/
theorem simulates_stmts (hs : Setting tc env link answers mem₀) : ∀ (stmts : List Statement)
    {typed : List TypedStatement} {inLoop : Bool} {n : Nest} {tail : Bool} {base : Nat},
    plainAll tc.symbols.types inLoop stmts = true → tc.checkStatements b stmts = .ok typed →
    stmtsFit typed n tail = true → (inLoop = true → 0 < n.loops) →
    base + stmtsLocals typed ≤ count →
    SimulatesCode tc.symbols env mem₀ st count k n tail (runAll tc.symbols.types answers k stmts)
      (stmtsCode link typed n.loops base)
  | [], typed, inLoop, n, tail, base, _, ht, _, _, _ => by
    cases ht
    exact simulates_next
  | stmt :: rest, typed, inLoop, n, tail, base, hp, ht, hf, hin, hb => by
    rw [plainAll, Bool.and_eq_true] at hp
    rw [TypeChecker.checkStatements] at ht
    obtain ⟨t, hts, ht⟩ := bind_eq_ok.1 ht
    obtain ⟨ts, htrest, ht⟩ := bind_eq_ok.1 ht
    cases ht
    rw [stmtsFit, Bool.and_eq_true] at hf
    rw [stmtsLocals] at hb
    intro ρ s h
    rw [runAll, stmtsCode, execSeq_append]
    exact Simulates.andThen (simulates_stmt hs stmt hp.1 hts hf.1 hin (by omega) ρ s h)
      (simulates_stmts hs rest hp.2 htrest hf.2 hin (by omega))
/-- The statements of an ELSE, where there is one. -/
theorem simulates_else (hs : Setting tc env link answers mem₀) :
    ∀ (elseBranch : Option (List Statement)) {typed : Option (List TypedStatement)} {inLoop : Bool}
      {loops base : Nat},
    (match elseBranch with
      | some stmts => plainAll tc.symbols.types inLoop stmts
      | none => true) = true →
    (match elseBranch with
      | none => .ok none
      | some stmts => do
        let typed ← tc.checkStatements b stmts
        return some typed : Except Failure (Option (List TypedStatement))) = .ok typed →
    (inLoop = true → 0 < loops) →
    base + (match typed with
      | some stmts => stmtsLocals stmts
      | none => 0) ≤ count →
    ∀ (n : Nest) (tail : Bool), n.loops = loops →
      (match typed with
        | some stmts => stmtsFit stmts
        | none => fun _ _ => true) n tail = true →
      SimulatesCode tc.symbols env mem₀ st count k n tail
        (match elseBranch with
          | some stmts => runAll tc.symbols.types answers k stmts
          | none => .next)
        ((match typed with
          | some stmts => some (stmtsCode link stmts loops base)
          | none => none).getD [])
  | none, typed, inLoop, loops, base, _, ht, _, _, n, tail, _, _ => by
    cases ht
    exact simulates_next
  | some stmts, typed, inLoop, loops, base, hp, ht, hin, hb, n, tail, hloops, hf => by
    obtain ⟨telse, htelse, ht⟩ := bind_eq_ok.1 ht
    cases ht
    subst hloops
    exact simulates_stmts hs stmts hp htelse hf hin hb
/-- The ELSIF branches before an ELSE. -/
theorem simulates_elsifs (hs : Setting tc env link answers mem₀) :
    ∀ (branches : List (Expression × List Statement))
      {typed : List (TypedExpr × List TypedStatement)} {inLoop : Bool} {n : Nest} {tail : Bool}
      {base : Nat} {els : Store → Signal RunError Store} {code : Option PlcCode}
      {fits : Nest → Bool → Bool}, plainElsifs tc.symbols.types inLoop branches = true →
    tc.checkElsifs b branches = .ok typed → elsifsFit typed n tail fits = true →
    (inLoop = true → 0 < n.loops) → base + elsifsLocals typed ≤ count →
    (∀ n' tail', n'.loops = n.loops → fits n' tail' = true →
      SimulatesCode tc.symbols env mem₀ st count k n' tail' els (code.getD [])) →
    SimulatesCode tc.symbols env mem₀ st count k n tail
      (runElsifs tc.symbols.types answers k branches els)
      ((elsifsCode link typed n.loops base code).getD [])
  | [], typed, inLoop, n, tail, base, els, code, fits, _, ht, hf, _, _, hels => by
    cases ht
    exact hels n tail rfl hf
  | (condition, stmts) :: rest, typed, inLoop, n, tail, base, els, code, fits, hp, ht, hf, hin, hb,
      hels => by
    simp only [plainElsifs, Bool.and_eq_true] at hp
    obtain ⟨hcond, hstmts, hrest⟩ := hp
    rw [TypeChecker.checkElsifs] at ht
    obtain ⟨tcond, htcond, ht⟩ := bind_eq_ok.1 ht
    obtain ⟨-, -, ht⟩ := bind_eq_ok.1 ht
    obtain ⟨tstmts, htstmts, ht⟩ := bind_eq_ok.1 ht
    obtain ⟨trest, htrest, ht⟩ := bind_eq_ok.1 ht
    cases ht
    rw [elsifsFit, Bool.and_eq_true] at hf
    rw [elsifsLocals] at hb
    intro ρ s h
    rw [runElsifs, elsifsCode, Option.getD_some]
    refine simulates_if hs hcond htcond ?_ ?_ ρ s h
    · exact simulates_stmts hs stmts hstmts htstmts hf.1 hin (by omega)
    · exact simulates_elsifs hs rest (n := n.arm tail) hrest htrest hf.2 hin (by omega) hels
/-- The branches of a CASE before an ELSE, with the selector in a local. -/
theorem simulates_branches (hs : Setting tc env link answers mem₀) :
    ∀ (branches : List (List CaseValue × List Statement))
      {typed : List (List Int × List TypedStatement)} {inLoop : Bool} {n : Nest} {tail : Bool}
      {base sel : Nat} {v : Int} {els : Store → Signal RunError Store} {code : Option PlcCode}
      {fits : Nest → Bool → Bool}, InSigned 32 v →
      plainBranches tc.symbols.types inLoop branches = true →
    tc.checkBranches b branches = .ok typed → branchesFit typed n tail fits = true →
    (inLoop = true → 0 < n.loops) → base + branchesLocals typed ≤ count →
    (∀ n' tail', n'.loops = n.loops → fits n' tail' = true →
      SimulatesCode tc.symbols env mem₀ st count k n' tail' els (code.getD [])) →
    ∀ (ρ : Store) (l : List Value) (mem : Memory), l.length = count →
      Represents tc.symbols mem₀ ρ mem →
      l[sel]? = some (.i32 (BitVec.ofInt 32 v)) →
      Simulates tc.symbols mem₀ st count n tail
        (runBranches tc.symbols.types answers k branches v els ρ)
        (execSeq (machine env) k ((branchesCode link typed n.loops base sel code).getD [])
          ⟨st, l, mem⟩)
  | [], typed, inLoop, n, tail, base, sel, v, els, code, fits, _, _, ht, hf, _, _, hels, ρ, l, mem,
      hl, hm, _ => by
    cases ht
    exact hels n tail rfl hf ρ _ (Related.mk' hl hm)
  | (values, stmts) :: rest, typed, inLoop, n, tail, base, sel, v, els, code, fits, hvr, hp, ht, hf,
      hin, hb, hels, ρ, l, mem, hl, hm, hsel => by
    simp only [plainBranches, Bool.and_eq_true] at hp
    obtain ⟨hvalues, hstmts, hrest⟩ := hp
    rw [TypeChecker.checkBranches] at ht
    obtain ⟨labels, hlabels, ht⟩ := bind_eq_ok.1 ht
    obtain ⟨tstmts, htstmts, ht⟩ := bind_eq_ok.1 ht
    obtain ⟨trest, htrest, ht⟩ := bind_eq_ok.1 ht
    cases ht
    have hhits := hits_eq hvr values hvalues hlabels
    rw [runBranches, ← hhits]
    cases labels with
    | nil =>
      -- a branch without labels has no code
      rw [branchesFit] at hf
      rw [branchesLocals] at hb
      rw [branchesCode, if_neg (by rw [hits]; exact Bool.false_ne_true)]
      exact simulates_branches hs rest hvr hrest htrest hf hin hb hels ρ l mem hl hm hsel
    | cons y ys =>
      rw [branchesFit, Bool.and_eq_true] at hf
      rw [branchesLocals] at hb
      rw [branchesCode, Option.getD_some, execSeq_append, execSeq_caseCondition env k hsel,
        Outcome.andThen_normal]
      have hb0 : ∀ c : Bool, (if c then (1 : BitVec 32) else 0) = 0 ↔ ¬ c = true := by decide
      refine simulates_cond (hb0 _) ?_ ?_
      · exact simulates_stmts hs stmts hstmts htstmts hf.1 hin (by omega) ρ _ (Related.mk' hl hm)
      · exact simulates_branches hs rest (n := n.arm tail) hvr hrest htrest hf.2 hin (by omega)
          hels ρ l mem hl hm hsel
end

end Statements

end VirtualPlc.Compiler
