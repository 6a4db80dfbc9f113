import VirtualPlc.Wasm.Exec

/-!
# Operands that operations leave

What the operations do to the operand stack when they do not stop, and which of them can stop at a
guarded address. `Leaves P rest` is the outcome of code that pushes one operand with `P` on the
operands `rest`; it never stops at a guarded address.
-/

set_option autoImplicit false

namespace VirtualPlc.Wasm

open VirtualPlc.Control VirtualPlc.Word

universe u

variable {κ : Type u}

/-- The outcome leaves the operands `P` describes and does not stop at a guarded address. -/
def Stacks (P : List Value → Prop) : Outcome Fault State → Prop :=
  Outcome.Yields .guarded fun s => P s.stack

/-- The outcome leaves one operand with `P` on top of `rest`. -/
def Leaves (P : Value → Prop) (rest : List Value) : Outcome Fault State → Prop :=
  Stacks fun st => ∃ v, P v ∧ st = v :: rest

/-- Any operand. -/
def anyValue (_ : Value) : Prop := True

/-- Operations that take two operands and leave one. -/
def Op.isBinary : Op → Bool
  | .i32Bin _ | .i64Bin _ | .f32Bin _ | .f64Bin _ | .i32Rel _ | .f32Rel _ | .f64Rel _ => true
  | _ => false

/-- Operations that write to memory. -/
def Op.isStore : Op → Bool
  | .store _ _ | .store8 _ | .store16 _ => true
  | _ => false

section Leaves

variable {env : Env κ} {st l : List Value} {m : Memory}

theorem leaves_push {P : Value → Prop} (s : State) {v : Value} (h : P v) :
    Leaves P s.stack (.normal (s.push v)) :=
  ⟨v, h, rfl⟩

theorem leaves_pushOrTrap (s : State) (r : Option Value) :
    Leaves anyValue s.stack (s.pushOrTrap r) := by
  cases r with
  | some v => exact leaves_push s trivial
  | none => exact fun h => by cases h

theorem leaves_binary {op : Op} (h : op.isBinary = true) (v w : Value) :
    Leaves anyValue st (stepOp env op ⟨w :: v :: st, l, m⟩) := by
  cases op with
  | i32Bin o | i64Bin o | f32Bin o | f64Bin o | i32Rel o | f32Rel o | f64Rel o =>
    cases v <;> cases w <;>
      first
      | exact leaves_pushOrTrap ⟨st, l, m⟩ _
      | exact leaves_push ⟨st, l, m⟩ trivial
      | exact fun h => by cases h
  | _ => cases h

theorem leaves_loadWith (offset n : Nat) (f : Nat → Value) (v : Value) :
    Leaves anyValue st (State.loadWith ⟨v :: st, l, m⟩ offset n f) := by
  cases v with
  | i32 a => exact leaves_pushOrTrap ⟨st, l, m⟩ _
  | i64 a => exact fun h => by cases h
  | f32 a => exact fun h => by cases h
  | f64 a => exact fun h => by cases h

theorem Stacks.andThen {P Q : List Value → Prop} {o : Outcome Fault State}
    {f : State → Outcome Fault State} (h : Stacks P o)
    (hf : ∀ st l m, P st → Stacks Q (f ⟨st, l, m⟩)) : Stacks Q (o.andThen f) :=
  Outcome.Yields.andThen h fun s hs => hf s.stack s.locals s.mem hs

/-- Go on with the operand that is left. -/
theorem Leaves.andThen {P : Value → Prop} {Q : List Value → Prop} {rest : List Value}
    {o : Outcome Fault State} {f : State → Outcome Fault State} (h : Leaves P rest o)
    (hf : ∀ v l m, P v → Stacks Q (f ⟨v :: rest, l, m⟩)) : Stacks Q (o.andThen f) := by
  apply Stacks.andThen h
  rintro st l m ⟨v, hv, rfl⟩
  exact hf v l m hv

theorem Stacks.andThen_ne_guarded {P : List Value → Prop} {o : Outcome Fault State}
    {f : State → Outcome Fault State} (h : Stacks P o)
    (hf : ∀ st l m, P st → f ⟨st, l, m⟩ ≠ .abort .guarded) : o.andThen f ≠ .abort .guarded := by
  cases o with
  | normal s => exact hf s.stack s.locals s.mem h
  | br d s => exact h.elim
  | ret s => exact h.elim
  | abort e => exact h.ne_abort
  | timeout => exact fun he => by cases he

theorem Leaves.andThen_ne_guarded {P : Value → Prop} {rest : List Value} {o : Outcome Fault State}
    {f : State → Outcome Fault State} (h : Leaves P rest o)
    (hf : ∀ v l m, P v → f ⟨v :: rest, l, m⟩ ≠ .abort .guarded) :
    o.andThen f ≠ .abort .guarded := by
  apply Stacks.andThen_ne_guarded h
  rintro st l m ⟨v, hv, rfl⟩
  exact hf v l m hv

/-- A call with its arguments on top of `st`. -/
theorem leaves_call {i : Nat} {ft : FuncType} (htype : env.funcType i = some ft)
    (hcall : ∀ args mem, env.call i args mem ≠ some (.error .guarded))
    (hresults : ∀ args mem results mem',
      env.call i args mem = some (.ok (results, mem')) → results.length = 1)
    {args : List Value} (hargs : args.length = ft.params.length) :
    Leaves anyValue st (stepOp env (.call i) ⟨args ++ st, l, m⟩) := by
  have htake : (args ++ st).take ft.params.length = args := by
    rw [← hargs, List.take_left]
  have hdrop : (args ++ st).drop ft.params.length = st := by
    rw [← hargs, List.drop_left]
  simp only [stepOp, State.callWith, htype, htake, hdrop]
  split
  · cases hc : env.call i args.reverse m with
    | none => exact trivial
    | some r =>
      cases r with
      | error e => exact fun he => hcall args.reverse m (by rw [hc, he])
      | ok r =>
        obtain ⟨results, mem⟩ := r
        obtain ⟨v, rfl⟩ := List.length_eq_one_iff.1 (hresults _ _ _ _ hc)
        exact ⟨v, trivial, rfl⟩
  · exact fun h => by cases h

end Leaves

/-! ## Operations that do not store -/

section NoStore

variable {env : Env κ} {e : Fault}

theorem pop_ne_abort {s : State} {k : Value → State → Outcome Fault State} (he : e ≠ .stuck)
    (hk : ∀ v s', k v s' ≠ .abort e) : s.pop k ≠ .abort e := by
  obtain ⟨stack, l, m⟩ := s
  cases stack with
  | nil => exact fun h => he (by cases h; rfl)
  | cons v rest => exact hk v _

theorem popI32_ne_abort {s : State} {k : BitVec 32 → State → Outcome Fault State}
    (he : e ≠ .stuck) (hk : ∀ x s', k x s' ≠ .abort e) : s.popI32 k ≠ .abort e := by
  apply pop_ne_abort he
  intro v s'
  cases v with
  | i32 x => exact hk x s'
  | i64 x => exact fun h => he (by cases h; rfl)
  | f32 x => exact fun h => he (by cases h; rfl)
  | f64 x => exact fun h => he (by cases h; rfl)

theorem pushOrTrap_ne_abort {s : State} (r : Option Value) (he : e ≠ .trap) :
    s.pushOrTrap r ≠ .abort e := by
  cases r with
  | some v => exact fun h => by cases h
  | none => exact fun h => he (by cases h; rfl)

theorem loadWith_ne_guarded (s : State) (offset n : Nat) (f : Nat → Value) :
    s.loadWith offset n f ≠ .abort .guarded := by
  rw [State.loadWith]
  exact popI32_ne_abort (by decide) fun x s' => pushOrTrap_ne_abort _ (by decide)

theorem binary_ne_guarded {op : Op} (h : op.isBinary = true) (s : State) :
    stepOp env op s ≠ .abort .guarded := by
  obtain ⟨stack, l, m⟩ := s
  match stack with
  | w :: v :: st => exact (leaves_binary h v w).ne_abort
  | [w] =>
    cases op with
    | i32Bin o | i64Bin o | f32Bin o | f64Bin o | i32Rel o | f32Rel o | f64Rel o =>
      cases w <;> exact fun h => by cases h
    | _ => cases h
  | [] =>
    cases op with
    | i32Bin o | i64Bin o | f32Bin o | f64Bin o | i32Rel o | f32Rel o | f64Rel o =>
      exact fun h => by cases h
    | _ => cases h

/-- Only a store stops at a guarded address. -/
theorem stepOp_ne_guarded (hcall : ∀ i args mem, env.call i args mem ≠ some (.error .guarded))
    {op : Op} (h : op.isStore = false) (s : State) : stepOp env op s ≠ .abort .guarded := by
  have hstuck : Fault.guarded ≠ .stuck := by decide
  cases op with
  | const v => exact fun h => by cases h
  | load t offset | load8S offset | load16S offset => exact loadWith_ne_guarded s _ _ _
  | store t offset | store8 offset | store16 offset => cases h
  | localGet i =>
    rw [stepOp]
    cases s.locals[i]? <;> exact fun h => by cases h
  | localSet i =>
    rw [stepOp]
    apply pop_ne_abort hstuck
    intro v s'
    split <;> exact fun h => by cases h
  | i32Bin o | i64Bin o | f32Bin o | f64Bin o | i32Rel o | f32Rel o | f64Rel o =>
    exact binary_ne_guarded rfl s
  | i32Eqz => exact popI32_ne_abort hstuck fun x s' h => by cases h
  | br d => exact fun h => by cases h
  | brIf d =>
    apply popI32_ne_abort hstuck
    intro x s'
    split <;> exact fun h => by cases h
  | ret => exact fun h => by cases h
  | call i =>
    rw [stepOp, State.callWith]
    cases env.funcType i with
    | none => exact fun h => by cases h
    | some ft =>
      dsimp only
      split
      · cases hc : env.call i (s.stack.take ft.params.length).reverse s.mem with
        | none => exact fun h => by cases h
        | some r =>
          cases r with
          | error e =>
            intro h
            cases h
            exact hcall i _ _ hc
          | ok r => exact fun h => by cases h
      · exact fun h => by cases h
  | drop => exact pop_ne_abort hstuck fun v s' h => by cases h

theorem State.test_ne_guarded (s : State) : s.test ≠ .error .guarded := by
  rw [State.test]
  split <;> exact fun h => by cases h

/-- A store above the guarded addresses. -/
theorem storeWith_ne_guarded {t : ValType} {offset n : Nat} {v : Value} {a : BitVec 32}
    {st l : List Value} {m : Memory} (hguard : env.guarded (a.toNat + offset) n = false) :
    State.storeWith env ⟨v :: .i32 a :: st, l, m⟩ t offset n ≠ .abort .guarded := by
  by_cases ht : v.type = t
  · by_cases hfit : a.toNat + offset + n ≤ m.size
    · rw [storeWith_eq ht hfit hguard]
      exact fun h => by cases h
    · rw [storeWith_trap ht (by omega)]
      exact fun h => by cases h
  · rw [State.storeWith, State.pop_cons, State.popI32_cons, if_neg ht]
    exact fun h => by cases h

end NoStore

end VirtualPlc.Wasm
