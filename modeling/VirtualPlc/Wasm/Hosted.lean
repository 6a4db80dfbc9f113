import Mathlib.Data.List.Forall2
import VirtualPlc.Control.Carrying
import VirtualPlc.Wasm.Exec

/-!
# Host functions with a state

A host keeps a state of its own, which its functions read and change: what they answer may depend on
the calls before. `callHosted` runs an instance over such functions. As long as they answer what
functions without a state would, unless they stop the run, the instance does what it does over those
(`callHosted_follows`). A host can be watched: `stopping` ends the run with `observed` at the first
call that leaves the host in a bad state, and nothing else changes (`callHosted_stopping`).
-/

set_option autoImplicit false

namespace VirtualPlc.Wasm

open VirtualPlc.Control VirtualPlc.Word

universe u v

variable {κ : Type u} {η : Type v}

/-- A host function with a state: results, memory and state, or a fault. -/
abbrev HostedFunction (η : Type v) :=
  List Value → Memory → η → Except Fault (List Value × Memory × η)

/-- Result of a call beside the state of the host; `none` when the call ran out of fuel. -/
abbrev HostedResult (η : Type v) := Option (Except Fault (List Value × Memory × η))

/-- Call the function `i` with the operands its type asks for. -/
def State.callHosted (funcType : Nat → Option FuncType)
    (call : Nat → List Value → Memory → η → HostedResult η) (i : Nat) (s : State) (h : η) :
    Outcome Fault (State × η) :=
  match funcType i with
  | none => .abort .stuck
  | some ft =>
    let args := (s.stack.take ft.params.length).reverse
    if args.map Value.type = ft.params then
      match call i args s.mem h with
      | none => .timeout
      | some (.error e) => .abort e
      | some (.ok (results, mem, h')) =>
        .normal ({ s with stack := results.reverse ++ s.stack.drop ft.params.length, mem := mem },
          h')
    else .abort .stuck

/-- One basic operation beside the state of the host, which only calls reach. -/
def stepHosted (env : Env κ) (call : Nat → List Value → Memory → η → HostedResult η) (op : Op)
    (s : State × η) : Outcome Fault (State × η) :=
  match op with
  | .call i => s.1.callHosted env.funcType call i s.2
  | op => (stepOp env op s.1).map fun s' => (s', s.2)

/-- The structured-control machine of an environment beside the state of the host. -/
def hostedMachine (env : Env κ) (call : Nat → List Value → Memory → η → HostedResult η) :
    Machine Op κ Fault (State × η) where
  step := stepHosted env call
  probe k s := env.probe k s.1
  test s := s.1.test.map fun p => (p.1, p.2, s.2)
  unwind entry s := ({ s.1 with stack := entry.1.stack }, s.2)

/-- The results of a function left on the stack when its code ends. -/
def hostedBodyResult (results : Nat) : Outcome Fault (State × η) → HostedResult η
  | .normal s => some (.ok ((s.1.stack.take results).reverse, s.1.mem, s.2))
  | .br 0 s => some (.ok ((s.1.stack.take results).reverse, s.1.mem, s.2))
  | .br (_ + 1) _ => some (.error .stuck)
  | .ret s => some (.ok ((s.1.stack.take results).reverse, s.1.mem, s.2))
  | .abort e => some (.error e)
  | .timeout => none

/-- The result of a host function; results of other types than declared trap. -/
def hostedResult (results : List ValType) (r : Except Fault (List Value × Memory × η)) :
    HostedResult η :=
  match r with
  | .ok (vs, mem, h) =>
    if vs.map Value.type = results then some (.ok (vs, mem, h)) else some (.error .trap)
  | .error e => some (.error e)

/-- Call the function `i` over the given host functions, which stand for those of the instance. -/
def Instance.callHosted (p : Instance κ) (hosts : List (HostedFunction η)) (n : Nat) :
    Nat → Nat → List Value → Memory → η → HostedResult η
  | 0, _, _, _, _ => none
  | d + 1, i, args, mem, h =>
    match p.funcType i with
    | none => some (.error .stuck)
    | some ft =>
      match hosts[i]? with
      | some f => hostedResult ft.results (f args mem h)
      | none =>
        match p.bodies[i - hosts.length]? with
        | some b =>
          hostedBodyResult ft.results.length <|
            execSeq (hostedMachine (p.env fun _ _ _ => none) (p.callHosted hosts n d)) n b.code
              (⟨[], args ++ b.locals.map ValType.zero, mem⟩, h)
        | none => some (.error .stuck)

/-! ## Hosts that answer without their state -/

/-- The second result is the first one without the state of the host, which has `Q`, unless the
first one stopped for the reason `e`. -/
def ResultFollows (e : Fault) (Q : η → Prop) (a : HostedResult η) (b : CallResult) : Prop :=
  match a with
  | none => b = none
  | some (.error e') => e' = e ∨ b = some (.error e')
  | some (.ok (vs, mem, h)) => Q h ∧ b = some (.ok (vs, mem))

/-- The function `f` answers what `g` does, in states with `Q`, unless it stops the run for the
reason `e`. -/
def Serves (e : Fault) (Q : η → Prop) (f : HostedFunction η) (g : HostFunction) : Prop :=
  ∀ args mem h, Q h → match f args mem h with
    | .error e' => e' = e ∨ e' = .trap ∧ g args mem = none
    | .ok (vs, mem', h') => Q h' ∧ g args mem = some (vs, mem')

section Hosts

variable {e : Fault} {Q : η → Prop}

theorem Serves.follows {f : HostedFunction η} {g : HostFunction} (hfg : Serves e Q f g)
    (results : List ValType) (args : List Value) (mem : Memory) {h : η} (hh : Q h) :
    ResultFollows e Q (hostedResult results (f args mem h)) (hostResult results (g args mem)) := by
  have hcall := hfg args mem h hh
  cases hf : f args mem h with
  | error e' =>
    rw [hf] at hcall
    rcases hcall with rfl | ⟨rfl, hg⟩
    · exact Or.inl rfl
    · rw [hg]
      exact Or.inr rfl
  | ok r =>
    obtain ⟨vs, mem', h'⟩ := r
    rw [hf] at hcall
    obtain ⟨hh', hg⟩ := hcall
    rw [hg, hostedResult, hostResult]
    split
    · exact ⟨hh', rfl⟩
    · exact Or.inr rfl

theorem ResultFollows.bodyResult {a : Outcome Fault (State × η)} {b : Outcome Fault State}
    (h : a.Follows e Q b) (results : Nat) :
    ResultFollows e Q (hostedBodyResult results a) (bodyResult results b) := by
  cases a with
  | normal s =>
    obtain ⟨hs, rfl⟩ := h
    exact ⟨hs, rfl⟩
  | br d s =>
    obtain ⟨hs, rfl⟩ := h
    cases d with
    | zero => exact ⟨hs, rfl⟩
    | succ d => exact Or.inr rfl
  | ret s =>
    obtain ⟨hs, rfl⟩ := h
    exact ⟨hs, rfl⟩
  | abort e' =>
    rcases h with rfl | rfl
    · exact Or.inl rfl
    · exact Or.inr rfl
  | timeout =>
    obtain rfl : b = .timeout := h
    rfl

/-- A call beside the state of the host is the call without it, if the functions called agree. -/
theorem callHosted_step {env : Env κ} {call : Nat → List Value → Memory → η → HostedResult η}
    (hcall : ∀ i args mem h, Q h → ResultFollows e Q (call i args mem h) (env.call i args mem))
    (i : Nat) (s : State) {h : η} (hh : Q h) :
    (s.callHosted env.funcType call i h).Follows e Q (s.callWith env i) := by
  rw [State.callHosted, State.callWith]
  cases env.funcType i with
  | none => exact Or.inr rfl
  | some ft =>
    simp only
    split
    · have hfollows := hcall i (s.stack.take ft.params.length).reverse s.mem h hh
      cases hr : call i (s.stack.take ft.params.length).reverse s.mem h with
      | none =>
        rw [hr] at hfollows
        have heq : env.call i (s.stack.take ft.params.length).reverse s.mem = none := hfollows
        rw [heq]
        rfl
      | some r =>
        rw [hr] at hfollows
        cases r with
        | error e' =>
          rcases hfollows with rfl | heq
          · exact Or.inl rfl
          · rw [heq]
            exact Or.inr rfl
        | ok r =>
          obtain ⟨hs, heq⟩ := hfollows
          rw [heq]
          exact ⟨hs, rfl⟩
    · exact Or.inr rfl

theorem stepHosted_other {env : Env κ} {call : Nat → List Value → Memory → η → HostedResult η}
    {op : Op} (hop : ∀ i, op ≠ .call i) (s : State × η) :
    stepHosted env call op s = (stepOp env op s.1).map fun s' => (s', s.2) := by
  rw [stepHosted]
  exact hop

theorem carries_hostedMachine {env : Env κ}
    {call : Nat → List Value → Memory → η → HostedResult η}
    (hcall : ∀ i args mem h, Q h → ResultFollows e Q (call i args mem h) (env.call i args mem)) :
    (hostedMachine env call).Carries (machine env) e Q where
  step := by
    intro op s h hh
    by_cases hop : ∃ i, op = .call i
    · obtain ⟨i, rfl⟩ := hop
      exact callHosted_step hcall i s hh
    · show (stepHosted env call op (s, h)).Follows e Q (stepOp env op s)
      rw [stepHosted_other (fun i hi => hop ⟨i, hi⟩)]
      exact Outcome.follows_map h hh _
  probe := fun _ _ => rfl
  test := fun _ _ => rfl
  unwind := fun _ _ => rfl

/-- Only calls see what calls do. -/
theorem hostedMachine_env (p : Instance κ) (c c' : Nat → List Value → Memory → CallResult)
    (call : Nat → List Value → Memory → η → HostedResult η) :
    hostedMachine (p.env c) call = hostedMachine (p.env c') call := by
  have hstep : stepHosted (p.env c) call = stepHosted (p.env c') call := by
    funext op s
    cases op <;> rfl
  rw [hostedMachine, hostedMachine, hstep]
  rfl

/-- Over host functions that answer what `functions` do, an instance does what it does over
`functions`, unless they stop the run. -/
theorem callHosted_follows {p : Instance κ} {hosts : List (HostedFunction η)}
    {functions : List HostFunction} (hanswers : List.Forall₂ (Serves e Q) hosts functions)
    (n : Nat) : ∀ (d i : Nat) (args : List Value) (mem : Memory) (h : η), Q h →
      ResultFollows e Q (p.callHosted hosts n d i args mem h)
        (({ p with hosts := functions } : Instance κ).call n d i args mem)
  | 0, _, _, _, _, _ => rfl
  | d + 1, i, args, mem, h, hh => by
    rw [Instance.callHosted, Instance.call]
    cases p.funcType i with
    | none => exact Or.inr rfl
    | some ft =>
      simp only
      rw [← hanswers.length_eq]
      rcases hi : hosts[i]? with _ | f
      -- a function of the module: its calls go one level deeper
      · have hnone : functions[i]? = none := by
          rw [List.getElem?_eq_none_iff] at hi ⊢
          rwa [← hanswers.length_eq]
        rw [hnone]
        simp only
        cases p.bodies[i - hosts.length]? with
        | none => exact Or.inr rfl
        | some b =>
          refine ResultFollows.bodyResult ?_ ft.results.length
          rw [hostedMachine_env p _
            (({ p with hosts := functions } : Instance κ).call n d)]
          refine execSeq_follows (carries_hostedMachine ?_) n b.code _ h hh
          exact callHosted_follows hanswers n d
      -- a host function
      · obtain ⟨hlt, rfl⟩ := List.getElem?_eq_some_iff.1 hi
        have hlt' : i < functions.length := by rwa [← hanswers.length_eq]
        rw [List.getElem?_eq_getElem hlt']
        have hfg : Serves e Q hosts[i] functions[i] := hanswers.get hlt hlt'
        exact hfg.follows ft.results args mem hh

end Hosts

/-! ## Watching a host -/

/-- The host function, stopping the run when it leaves the host in a bad state. -/
def stopping (bad : η → Bool) (f : HostedFunction η) : HostedFunction η := fun args mem h =>
  match f args mem h with
  | .error e => .error e
  | .ok (vs, mem', h') => if bad h' then .error .observed else .ok (vs, mem', h')

theorem stopping_cases (bad : η → Bool) (f : HostedFunction η) (args : List Value) (mem : Memory)
    (h : η) :
    stopping bad f args mem h = .error .observed ∨ stopping bad f args mem h = f args mem h := by
  rw [stopping]
  cases f args mem h with
  | error e => exact Or.inr rfl
  | ok r =>
    obtain ⟨vs, mem', h'⟩ := r
    simp only
    split
    · exact Or.inl rfl
    · exact Or.inr rfl

theorem monitors_hostedMachine (env : Env κ)
    {call call' : Nat → List Value → Memory → η → HostedResult η}
    (hcall : ∀ i args mem h, call i args mem h = some (.error .observed) ∨
      call' i args mem h = call i args mem h) :
    (hostedMachine env call).Monitors (hostedMachine env call') .observed where
  step := by
    intro op s
    cases op with
    | call i =>
      show (s.1.callHosted env.funcType call i s.2).AgreesUnless _
        (s.1.callHosted env.funcType call' i s.2)
      rw [State.callHosted, State.callHosted]
      cases env.funcType i with
      | none => exact .refl _ _
      | some ft =>
        simp only
        split
        · rcases hcall i (s.1.stack.take ft.params.length).reverse s.1.mem s.2 with hstop | hsame
          · rw [hstop]
            exact Or.inl rfl
          · rw [hsame]
            exact .refl _ _
        · exact .refl _ _
    | _ => exact .refl _ _
  probe := fun _ _ => Or.inr rfl
  test := rfl
  unwind := rfl

/-- Over a watched host an instance does what it does over the host, up to the first call that
leaves the host in a bad state. -/
theorem callHosted_stopping (bad : η → Bool) (p : Instance κ) (hosts : List (HostedFunction η))
    (n : Nat) :
    ∀ (d i : Nat) (args : List Value) (mem : Memory) (h : η),
      p.callHosted (hosts.map (stopping bad)) n d i args mem h = some (.error .observed) ∨
        p.callHosted hosts n d i args mem h =
          p.callHosted (hosts.map (stopping bad)) n d i args mem h
  | 0, _, _, _, _ => Or.inr rfl
  | d + 1, i, args, mem, h => by
    rw [Instance.callHosted, Instance.callHosted]
    cases p.funcType i with
    | none => exact Or.inr rfl
    | some ft =>
      simp only [List.getElem?_map, List.length_map]
      cases hosts[i]? with
      | none =>
        simp only [Option.map_none]
        cases p.bodies[i - hosts.length]? with
        | none => exact Or.inr rfl
        | some b =>
          -- a call inside of the body stops or agrees by induction on the depth
          have hmonitors := monitors_hostedMachine (p.env fun _ _ _ => none)
            (callHosted_stopping bad p hosts n d)
          rcases execSeq_agreesUnless hmonitors n b.code
            (⟨[], args ++ b.locals.map ValType.zero, mem⟩, h) with hstop | hsame
          · simp only
            rw [hstop]
            exact Or.inl rfl
          · simp only
            rw [hsame]
            exact Or.inr rfl
      | some f =>
        simp only [Option.map_some]
        rcases stopping_cases bad f args mem h with hstop | hsame
        · rw [hstop]
          exact Or.inl rfl
        · rw [hsame]
          exact Or.inr rfl

end VirtualPlc.Wasm
