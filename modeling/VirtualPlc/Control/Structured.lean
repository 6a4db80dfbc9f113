import Mathlib.Data.List.Basic

/-!
# Structured control flow with relative branch depths

Code is a tree of blocks, loops and conditionals over basic operations. A branch names its target
by the number of constructs between it and the target, so an outcome `br n` crossing a construct
either lands on it (`n = 0`) or continues outwards as `br (n - 1)`. The operations, the state and
the reasons for which an execution stops are parameters (`Machine`).

`execSeq m n code s` runs `code` where every loop may iterate at most `n` times; the outcome
`timeout` records that some loop wanted more. `execSeq_mono` makes `Runs`, the execution with
enough fuel, single-valued.
-/

set_option autoImplicit false

namespace VirtualPlc.Control

universe u v w x

/-- Result of running code: fall through, branch to the enclosing construct at some depth, return
from the function, stop for a reason, or exhaust the iteration bound. -/
inductive Outcome (ε : Type u) (σ : Type v) where
  | normal (s : σ)
  | br (depth : Nat) (s : σ)
  | ret (s : σ)
  | abort (e : ε)
  | timeout

/-- Structured code over basic operations `ι` with ghost observations `κ`. -/
inductive Code (ι : Type u) (κ : Type v) where
  | op (i : ι)
  | probe (k : κ)
  | block (body : List (Code ι κ))
  | loop (body : List (Code ι κ))
  | ifThen (thn : List (Code ι κ))
  | ifElse (thn els : List (Code ι κ))

/-- Meaning of the basic operations. `test` consumes the condition of a conditional, `probe`
inspects the state at an observation, and `unwind entry s` is `s` with the operands that were live
at `entry`, the state in which the target construct was entered. -/
structure Machine (ι : Type u) (κ : Type v) (ε : Type w) (σ : Type x) where
  step : ι → σ → Outcome ε σ
  probe : κ → σ → Option ε
  test : σ → Except ε (Bool × σ)
  unwind : σ → σ → σ

variable {ι : Type u} {κ : Type v} {ε : Type w} {σ : Type x}

/-- Continue with `f` after a fall-through. -/
def Outcome.andThen (o : Outcome ε σ) (f : σ → Outcome ε σ) : Outcome ε σ :=
  match o with
  | .normal s => f s
  | .br d s => .br d s
  | .ret s => .ret s
  | .abort e => .abort e
  | .timeout => .timeout

/-- Leave a construct whose label stands at its end. -/
def Outcome.label (unwind : σ → σ) : Outcome ε σ → Outcome ε σ
  | .normal s => .normal s
  | .br 0 s => .normal (unwind s)
  | .br (d + 1) s => .br d s
  | .ret s => .ret s
  | .abort e => .abort e
  | .timeout => .timeout

/-- Run a loop body until it stops branching to the loop's own label. -/
def iterate (unwind : σ → σ) (body : σ → Outcome ε σ) : Nat → σ → Outcome ε σ
  | 0, _ => .timeout
  | n + 1, s =>
    match body s with
    | .normal s' => .normal s'
    | .br 0 s' => iterate unwind body n (unwind s')
    | .br (d + 1) s' => .br d s'
    | .ret s' => .ret s'
    | .abort e => .abort e
    | .timeout => .timeout

/-- One observation: stop with the reported reason, or go on. -/
def observe (r : Option ε) (s : σ) : Outcome ε σ :=
  match r with
  | none => .normal s
  | some e => .abort e

/-- Branch on a consumed condition. -/
def choose (r : Except ε (Bool × σ)) (thn els : σ → Outcome ε σ) : Outcome ε σ :=
  match r with
  | .error e => .abort e
  | .ok (true, s) => thn s
  | .ok (false, s) => els s

mutual
/-- Run one construct with at most `n` iterations of each loop. -/
def exec (m : Machine ι κ ε σ) (n : Nat) : Code ι κ → σ → Outcome ε σ
  | .op i, s => m.step i s
  | .probe k, s => observe (m.probe k s) s
  | .block body, s => (execSeq m n body s).label (m.unwind s)
  | .loop body, s => iterate (m.unwind s) (execSeq m n body) n s
  | .ifThen thn, s =>
    choose (m.test s) (fun s' => (execSeq m n thn s').label (m.unwind s')) .normal
  | .ifElse thn els, s =>
    choose (m.test s) (fun s' => (execSeq m n thn s').label (m.unwind s'))
      (fun s' => (execSeq m n els s').label (m.unwind s'))
/-- Run a sequence of constructs. -/
def execSeq (m : Machine ι κ ε σ) (n : Nat) : List (Code ι κ) → σ → Outcome ε σ
  | [], s => .normal s
  | c :: cs, s => (exec m n c s).andThen (execSeq m n cs)
end

section Equations

@[simp] theorem Outcome.andThen_normal (s : σ) (f : σ → Outcome ε σ) :
    (Outcome.normal s).andThen f = f s := rfl
@[simp] theorem Outcome.andThen_br (d : Nat) (s : σ) (f : σ → Outcome ε σ) :
    (Outcome.br d s).andThen f = .br d s := rfl
@[simp] theorem Outcome.andThen_ret (s : σ) (f : σ → Outcome ε σ) :
    (Outcome.ret s).andThen f = .ret s := rfl
@[simp] theorem Outcome.andThen_abort (e : ε) (f : σ → Outcome ε σ) :
    (Outcome.abort e).andThen f = .abort e := rfl
@[simp] theorem Outcome.andThen_timeout (f : σ → Outcome ε σ) :
    (Outcome.timeout).andThen f = .timeout := rfl

@[simp] theorem Outcome.label_normal (g : σ → σ) (s : σ) :
    (Outcome.normal s : Outcome ε σ).label g = .normal s := rfl
@[simp] theorem Outcome.label_br_zero (g : σ → σ) (s : σ) :
    (Outcome.br 0 s : Outcome ε σ).label g = .normal (g s) := rfl
@[simp] theorem Outcome.label_br_succ (g : σ → σ) (d : Nat) (s : σ) :
    (Outcome.br (d + 1) s : Outcome ε σ).label g = .br d s := rfl
@[simp] theorem Outcome.label_ret (g : σ → σ) (s : σ) :
    (Outcome.ret s : Outcome ε σ).label g = .ret s := rfl
@[simp] theorem Outcome.label_abort (g : σ → σ) (e : ε) :
    (Outcome.abort e : Outcome ε σ).label g = .abort e := rfl
@[simp] theorem Outcome.label_timeout (g : σ → σ) :
    (Outcome.timeout : Outcome ε σ).label g = .timeout := rfl

theorem Outcome.andThen_assoc (o : Outcome ε σ) (f g : σ → Outcome ε σ) :
    (o.andThen f).andThen g = o.andThen fun s => (f s).andThen g := by
  cases o <;> rfl

@[simp] theorem choose_ok_true (s : σ) (f g : σ → Outcome ε σ) :
    choose (.ok (true, s)) f g = f s := rfl
@[simp] theorem choose_ok_false (s : σ) (f g : σ → Outcome ε σ) :
    choose (.ok (false, s)) f g = g s := rfl
@[simp] theorem choose_error (e : ε) (f g : σ → Outcome ε σ) :
    choose (.error e) f g = .abort e := rfl

@[simp] theorem observe_none (s : σ) : observe (none : Option ε) s = .normal s := rfl
@[simp] theorem observe_some (e : ε) (s : σ) : observe (some e) s = .abort e := rfl

variable (m : Machine ι κ ε σ) (n : Nat)

@[simp] theorem exec_op (i : ι) (s : σ) : exec m n (.op i) s = m.step i s := rfl
@[simp] theorem exec_probe (k : κ) (s : σ) :
    exec m n (.probe k) s = observe (m.probe k s) s := rfl
@[simp] theorem exec_block (body : List (Code ι κ)) (s : σ) :
    exec m n (.block body) s = (execSeq m n body s).label (m.unwind s) := rfl
theorem exec_loop (body : List (Code ι κ)) (s : σ) :
    exec m n (.loop body) s = iterate (m.unwind s) (execSeq m n body) n s := rfl
@[simp] theorem exec_ifThen (thn : List (Code ι κ)) (s : σ) :
    exec m n (.ifThen thn) s =
      choose (m.test s) (fun s' => (execSeq m n thn s').label (m.unwind s')) .normal := rfl
@[simp] theorem exec_ifElse (thn els : List (Code ι κ)) (s : σ) :
    exec m n (.ifElse thn els) s =
      choose (m.test s) (fun s' => (execSeq m n thn s').label (m.unwind s'))
        (fun s' => (execSeq m n els s').label (m.unwind s')) := rfl

@[simp] theorem execSeq_nil (s : σ) : execSeq m n [] s = .normal s := rfl
@[simp] theorem execSeq_cons (c : Code ι κ) (cs : List (Code ι κ)) (s : σ) :
    execSeq m n (c :: cs) s = (exec m n c s).andThen (execSeq m n cs) := rfl

theorem execSeq_singleton (c : Code ι κ) (s : σ) : execSeq m n [c] s = exec m n c s := by
  rw [execSeq_cons]
  cases exec m n c s <;> rfl

@[simp] theorem execSeq_append (a b : List (Code ι κ)) (s : σ) :
    execSeq m n (a ++ b) s = (execSeq m n a s).andThen (execSeq m n b) := by
  induction a generalizing s with
  | nil => rfl
  | cons c cs ih =>
    have hcs : execSeq m n (cs ++ b) = fun t => (execSeq m n cs t).andThen (execSeq m n b) :=
      funext ih
    rw [List.cons_append, execSeq_cons, hcs, execSeq_cons, Outcome.andThen_assoc]

end Equations

/-! ## Fuel -/

/-- `b` continues `a` when more iterations are allowed. -/
def Outcome.Extends (a b : Outcome ε σ) : Prop := a = .timeout ∨ b = a

theorem Outcome.Extends.refl (a : Outcome ε σ) : a.Extends a := Or.inr rfl

theorem Outcome.Extends.andThen {a b : Outcome ε σ} {f g : σ → Outcome ε σ}
    (h : a.Extends b) (hfg : ∀ s, (f s).Extends (g s)) : (a.andThen f).Extends (b.andThen g) := by
  rcases h with rfl | rfl
  · exact Or.inl rfl
  · cases b with
    | normal s => exact hfg s
    | br d s => exact .refl _
    | ret s => exact .refl _
    | abort e => exact .refl _
    | timeout => exact .refl _

theorem Outcome.Extends.label {a b : Outcome ε σ} (g : σ → σ) (h : a.Extends b) :
    (a.label g).Extends (b.label g) := by
  rcases h with rfl | rfl
  · exact Or.inl rfl
  · exact .refl _

theorem Outcome.Extends.choose (r : Except ε (Bool × σ)) {f f' g g' : σ → Outcome ε σ}
    (hf : ∀ s, (f s).Extends (f' s)) (hg : ∀ s, (g s).Extends (g' s)) :
    (Control.choose r f g).Extends (Control.choose r f' g') := by
  rcases r with e | ⟨b, s⟩
  · exact .refl _
  · cases b
    · exact hg s
    · exact hf s

theorem iterate_extends (unwind : σ → σ) {body body' : σ → Outcome ε σ}
    (hb : ∀ s, (body s).Extends (body' s)) :
    ∀ {n n' : Nat}, n ≤ n' → ∀ s,
      (iterate unwind body n s).Extends (iterate unwind body' n' s)
  | 0, _, _, _ => Or.inl rfl
  | n + 1, 0, h, _ => absurd h (by omega)
  | n + 1, n' + 1, h, s => by
    simp only [iterate]
    rcases hb s with hs | hs
    · rw [hs]
      exact Or.inl rfl
    · rw [hs]
      cases body s with
      | normal s' => exact .refl _
      | br d s' =>
        cases d with
        | zero => exact iterate_extends unwind hb (by omega) (unwind s')
        | succ d => exact .refl _
      | ret s' => exact .refl _
      | abort e => exact .refl _
      | timeout => exact .refl _

mutual
theorem exec_extends (m : Machine ι κ ε σ) {n n' : Nat} (h : n ≤ n') :
    ∀ (c : Code ι κ) (s : σ), (exec m n c s).Extends (exec m n' c s)
  | .op _, _ => .refl _
  | .probe _, _ => .refl _
  | .block body, s => (execSeq_extends m h body s).label _
  | .loop body, s => iterate_extends _ (execSeq_extends m h body) h s
  | .ifThen thn, _ =>
    .choose _ (fun s' => (execSeq_extends m h thn s').label _) fun _ => .refl _
  | .ifElse thn els, _ =>
    .choose _ (fun s' => (execSeq_extends m h thn s').label _)
      fun s' => (execSeq_extends m h els s').label _
theorem execSeq_extends (m : Machine ι κ ε σ) {n n' : Nat} (h : n ≤ n') :
    ∀ (cs : List (Code ι κ)) (s : σ), (execSeq m n cs s).Extends (execSeq m n' cs s)
  | [], _ => .refl _
  | c :: cs, s => (exec_extends m h c s).andThen (execSeq_extends m h cs)
end

/-- An outcome other than `timeout` is stable under more fuel. -/
theorem execSeq_mono (m : Machine ι κ ε σ) {n n' : Nat} (h : n ≤ n') {cs : List (Code ι κ)} {s : σ}
    (ht : execSeq m n cs s ≠ .timeout) : execSeq m n' cs s = execSeq m n cs s :=
  (execSeq_extends m h cs s).resolve_left ht

/-- `code` terminates from `s` with the outcome `o`. -/
def Runs (m : Machine ι κ ε σ) (code : List (Code ι κ)) (s : σ) (o : Outcome ε σ) : Prop :=
  o ≠ .timeout ∧ ∃ n, execSeq m n code s = o

theorem Runs.unique {m : Machine ι κ ε σ} {code : List (Code ι κ)} {s : σ} {o o' : Outcome ε σ}
    (h : Runs m code s o) (h' : Runs m code s o') : o = o' := by
  obtain ⟨ho, n, rfl⟩ := h
  obtain ⟨ho', n', rfl⟩ := h'
  rcases Nat.le_total n n' with hn | hn
  · exact (execSeq_mono m hn ho).symm
  · exact execSeq_mono m hn ho'

/-- A terminating run keeps its outcome under every larger fuel. -/
theorem Runs.eventually {m : Machine ι κ ε σ} {code : List (Code ι κ)} {s : σ} {o : Outcome ε σ}
    (h : Runs m code s o) : ∃ N, ∀ n, N ≤ n → execSeq m n code s = o := by
  obtain ⟨ho, N, rfl⟩ := h
  exact ⟨N, fun n hn => execSeq_mono m hn ho⟩

theorem Runs.of_eventually {m : Machine ι κ ε σ} {code : List (Code ι κ)} {s : σ}
    {o : Outcome ε σ} (ho : o ≠ .timeout) {N : Nat}
    (h : ∀ n, N ≤ n → execSeq m n code s = o) : Runs m code s o :=
  ⟨ho, N, h N (Nat.le_refl N)⟩

/-! ## Chains of iterations -/

/-- A loop body that continues from each `states i` with `states (i + 1)`, for `i < k`. -/
def Continues (unwind : σ → σ) (body : σ → Outcome ε σ) (states : Nat → σ) (k : Nat) : Prop :=
  ∀ i < k, ∃ t, body (states i) = .br 0 t ∧ unwind t = states (i + 1)

theorem iterate_continues {unwind : σ → σ} {body : σ → Outcome ε σ} (n : Nat) :
    ∀ {k : Nat} {states : Nat → σ}, Continues unwind body states k →
      iterate unwind body (k + n) (states 0) = iterate unwind body n (states k)
  | 0, states, _ => by rw [Nat.zero_add]
  | k + 1, states, h => by
    obtain ⟨t, ht, hu⟩ := h 0 (by omega)
    have hrest : Continues unwind body (fun i => states (i + 1)) k :=
      fun i hi => h (i + 1) (by omega)
    have ih := iterate_continues n hrest
    rw [Nat.add_right_comm k 1 n, iterate, ht]
    show iterate unwind body (k + n) (unwind t) = _
    rw [hu]
    exact ih

/-- A loop that continues forever exhausts every bound. -/
theorem iterate_forever {unwind : σ → σ} {body : σ → Outcome ε σ} {states : Nat → σ}
    (h : ∀ k, Continues unwind body states k) (n : Nat) :
    iterate unwind body n (states 0) = .timeout := by
  have hn := iterate_continues 0 (h n)
  rwa [Nat.add_zero] at hn

/-- One bound for finitely many eventual facts. -/
theorem eventually_forall_lt {P : Nat → Nat → Prop} :
    ∀ {k : Nat}, (∀ i < k, ∃ N, ∀ n, N ≤ n → P i n) → ∃ N, ∀ n, N ≤ n → ∀ i < k, P i n
  | 0, _ => ⟨0, fun _ _ _ hi => absurd hi (by omega)⟩
  | k + 1, h => by
    obtain ⟨N, hN⟩ := eventually_forall_lt (k := k) fun i hi => h i (by omega)
    obtain ⟨M, hM⟩ := h k (by omega)
    refine ⟨max N M, ?_⟩
    intro n hn i hi
    rcases Nat.lt_succ_iff_lt_or_eq.1 hi with hlt | rfl
    · exact hN n (by omega) i hlt
    · exact hM n (by omega)

/-! ## Avoiding one reason to stop -/

/-- No run of `code`, from any state and with any fuel, stops for the reason `e`. -/
def Avoids (m : Machine ι κ ε σ) (e : ε) (code : List (Code ι κ)) : Prop :=
  ∀ n s, execSeq m n code s ≠ .abort e

theorem Outcome.label_ne_abort {o : Outcome ε σ} {e : ε} (g : σ → σ) (h : o ≠ .abort e) :
    o.label g ≠ .abort e := by
  cases o with
  | normal s => exact fun h' => by cases h'
  | br d s => cases d <;> exact fun h' => by cases h'
  | ret s => exact fun h' => by cases h'
  | abort e' => exact h
  | timeout => exact fun h' => by cases h'

theorem Outcome.andThen_ne_abort {o : Outcome ε σ} {f : σ → Outcome ε σ} {e : ε} (h : o ≠ .abort e)
    (hf : ∀ s, f s ≠ .abort e) : o.andThen f ≠ .abort e := by
  cases o with
  | normal s => exact hf s
  | br d s => exact fun h' => by cases h'
  | ret s => exact fun h' => by cases h'
  | abort e' => exact h
  | timeout => exact fun h' => by cases h'

theorem iterate_ne_abort {unwind : σ → σ} {body : σ → Outcome ε σ} {e : ε}
    (h : ∀ s, body s ≠ .abort e) : ∀ n s, iterate unwind body n s ≠ .abort e
  | 0, _ => fun h' => by cases h'
  | n + 1, s => by
    have hs := h s
    simp only [iterate]
    cases hb : body s with
    | normal s' => exact fun h' => by cases h'
    | br d s' =>
      cases d with
      | zero => exact iterate_ne_abort h n (unwind s')
      | succ d => exact fun h' => by cases h'
    | ret s' => exact fun h' => by cases h'
    | abort e' => rwa [hb] at hs
    | timeout => exact fun h' => by cases h'

section Avoids

variable {m : Machine ι κ ε σ} {e : ε}

theorem Avoids.nil : Avoids m e [] := fun _ _ h => by cases h

theorem Avoids.append {a b : List (Code ι κ)} (ha : Avoids m e a) (hb : Avoids m e b) :
    Avoids m e (a ++ b) := by
  intro n s
  rw [execSeq_append]
  exact Outcome.andThen_ne_abort (ha n s) (hb n)

theorem Avoids.singleton {c : Code ι κ} (h : ∀ n s, exec m n c s ≠ .abort e) :
    Avoids m e [c] := by
  intro n s
  rw [execSeq_singleton]
  exact h n s

theorem Avoids.block {body : List (Code ι κ)} (h : Avoids m e body) :
    Avoids m e [.block body] :=
  .singleton fun n s => Outcome.label_ne_abort _ (h n s)

theorem Avoids.loop {body : List (Code ι κ)} (h : Avoids m e body) : Avoids m e [.loop body] :=
  .singleton fun n s => iterate_ne_abort (h n) n s

theorem Avoids.ifThen {thn : List (Code ι κ)} (htest : ∀ s, m.test s ≠ .error e)
    (h : Avoids m e thn) : Avoids m e [.ifThen thn] := by
  refine .singleton fun n s => ?_
  have ht := htest s
  rw [exec_ifThen]
  rcases hr : m.test s with e' | ⟨b, s'⟩
  · rw [hr] at ht
    exact fun h' => ht (by cases h'; rfl)
  · cases b with
    | true => exact Outcome.label_ne_abort _ (h n s')
    | false => exact fun h' => by cases h'

theorem Avoids.ifElse {thn els : List (Code ι κ)} (htest : ∀ s, m.test s ≠ .error e)
    (h : Avoids m e thn) (h' : Avoids m e els) : Avoids m e [.ifElse thn els] := by
  refine .singleton fun n s => ?_
  have ht := htest s
  rw [exec_ifElse]
  rcases hr : m.test s with e' | ⟨b, s'⟩
  · rw [hr] at ht
    exact fun h' => ht (by cases h'; rfl)
  · cases b with
    | true => exact Outcome.label_ne_abort _ (h n s')
    | false => exact Outcome.label_ne_abort _ (h' n s')

end Avoids

/-- The outcome falls through to a state with `P`, unless it stops for a reason other than `e`. -/
def Outcome.Yields (e : ε) (P : σ → Prop) : Outcome ε σ → Prop
  | .normal s => P s
  | .br _ _ => False
  | .ret _ => False
  | .abort e' => e' ≠ e
  | .timeout => True

theorem Outcome.Yields.andThen {e : ε} {P Q : σ → Prop} {o : Outcome ε σ} {f : σ → Outcome ε σ}
    (h : o.Yields e P) (hf : ∀ s, P s → (f s).Yields e Q) : (o.andThen f).Yields e Q := by
  cases o with
  | normal s => exact hf s h
  | br d s => exact h
  | ret s => exact h
  | abort e' => exact h
  | timeout => exact h

theorem Outcome.Yields.mono {e : ε} {P Q : σ → Prop} {o : Outcome ε σ} (h : o.Yields e P)
    (hPQ : ∀ s, P s → Q s) : o.Yields e Q := by
  cases o with
  | normal s => exact hPQ s h
  | br d s => exact h
  | ret s => exact h
  | abort e' => exact h
  | timeout => exact h

theorem Outcome.Yields.ne_abort {e : ε} {P : σ → Prop} {o : Outcome ε σ} (h : o.Yields e P) :
    o ≠ .abort e := by
  intro ho
  rw [ho] at h
  exact h rfl

/-! ## Comparing two machines -/

/-- `b` agrees with `a` unless `a` stopped for the reason `e`. -/
def Outcome.AgreesUnless (e : ε) (a b : Outcome ε σ) : Prop := a = .abort e ∨ b = a

theorem Outcome.AgreesUnless.refl (e : ε) (a : Outcome ε σ) : a.AgreesUnless e a := Or.inr rfl

theorem Outcome.AgreesUnless.andThen {e : ε} {a b : Outcome ε σ} {f g : σ → Outcome ε σ}
    (h : a.AgreesUnless e b) (hfg : ∀ s, (f s).AgreesUnless e (g s)) :
    (a.andThen f).AgreesUnless e (b.andThen g) := by
  rcases h with rfl | rfl
  · exact Or.inl rfl
  · cases b with
    | normal s => exact hfg s
    | br d s => exact .refl _ _
    | ret s => exact .refl _ _
    | abort e' => exact .refl _ _
    | timeout => exact .refl _ _

theorem Outcome.AgreesUnless.label {e : ε} {a b : Outcome ε σ} (g : σ → σ)
    (h : a.AgreesUnless e b) : (a.label g).AgreesUnless e (b.label g) := by
  rcases h with rfl | rfl
  · exact Or.inl rfl
  · exact .refl _ _

theorem Outcome.AgreesUnless.choose {e : ε} (r : Except ε (Bool × σ))
    {f f' g g' : σ → Outcome ε σ} (hf : ∀ s, (f s).AgreesUnless e (f' s))
    (hg : ∀ s, (g s).AgreesUnless e (g' s)) :
    (Control.choose r f g).AgreesUnless e (Control.choose r f' g') := by
  rcases r with e' | ⟨b, s⟩
  · exact .refl _ _
  · cases b
    · exact hg s
    · exact hf s

theorem iterate_agreesUnless {e : ε} (unwind : σ → σ) {body body' : σ → Outcome ε σ}
    (hb : ∀ s, (body s).AgreesUnless e (body' s)) :
    ∀ n s, (iterate unwind body n s).AgreesUnless e (iterate unwind body' n s)
  | 0, _ => .refl _ _
  | n + 1, s => by
    simp only [iterate]
    rcases hb s with hs | hs
    · rw [hs]
      exact Or.inl rfl
    · rw [hs]
      cases body s with
      | normal s' => exact .refl _ _
      | br d s' =>
        cases d with
        | zero => exact iterate_agreesUnless unwind hb n (unwind s')
        | succ d => exact .refl _ _
      | ret s' => exact .refl _ _
      | abort e' => exact .refl _ _
      | timeout => exact .refl _ _

/-- The operations and observations of `m'` agree with those of `m` wherever `m` does not stop for
the reason `e`; conditions and operand handling are the same. -/
structure Machine.Monitors (m m' : Machine ι κ ε σ) (e : ε) : Prop where
  step : ∀ i s, (m.step i s).AgreesUnless e (m'.step i s)
  probe : ∀ k s, m.probe k s = some e ∨ m'.probe k s = m.probe k s
  test : m'.test = m.test
  unwind : m'.unwind = m.unwind

theorem Machine.Monitors.observe {m m' : Machine ι κ ε σ} {e : ε} (h : m.Monitors m' e) (k : κ)
    (s : σ) : (Control.observe (m.probe k s) s).AgreesUnless e
      (Control.observe (m'.probe k s) s) := by
  rcases h.probe k s with hk | hk
  · rw [hk]
    exact Or.inl rfl
  · rw [hk]
    exact .refl _ _

mutual
theorem exec_agreesUnless {m m' : Machine ι κ ε σ} {e : ε} (h : m.Monitors m' e) (n : Nat) :
    ∀ (c : Code ι κ) (s : σ), (exec m n c s).AgreesUnless e (exec m' n c s)
  | .op i, s => h.step i s
  | .probe k, s => h.observe k s
  | .block body, s => by
    rw [exec_block, exec_block, h.unwind]
    exact (execSeq_agreesUnless h n body s).label _
  | .loop body, s => by
    rw [exec_loop, exec_loop, h.unwind]
    exact iterate_agreesUnless _ (execSeq_agreesUnless h n body) n s
  | .ifThen thn, s => by
    rw [exec_ifThen, exec_ifThen, h.unwind, h.test]
    exact .choose _ (fun s' => (execSeq_agreesUnless h n thn s').label _) fun _ => .refl _ _
  | .ifElse thn els, s => by
    rw [exec_ifElse, exec_ifElse, h.unwind, h.test]
    exact .choose _ (fun s' => (execSeq_agreesUnless h n thn s').label _)
      fun s' => (execSeq_agreesUnless h n els s').label _
theorem execSeq_agreesUnless {m m' : Machine ι κ ε σ} {e : ε} (h : m.Monitors m' e) (n : Nat) :
    ∀ (cs : List (Code ι κ)) (s : σ), (execSeq m n cs s).AgreesUnless e (execSeq m' n cs s)
  | [], _ => .refl _ _
  | c :: cs, s => (exec_agreesUnless h n c s).andThen (execSeq_agreesUnless h n cs)
end

end VirtualPlc.Control
