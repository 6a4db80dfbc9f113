import VirtualPlc.Control.Structured

/-!
# Chains of conditionals

A chain of conditions with arms, each conditional nested in the second arm of the one before it,
around an optional last arm. Running the nest is running the first arm whose condition holds
(`execSeq_ifChain`), seen through the conditionals that enclose it (`Outcome.cross`).
-/

set_option autoImplicit false

namespace VirtualPlc.Control

universe u v w x

variable {ι : Type u} {κ : Type v} {ε : Type w} {σ : Type x}

/-- What is left of an outcome outside `k` constructs that were entered with the same operands. -/
def Outcome.cross (unwind : σ → σ) (k : Nat) : Outcome ε σ → Outcome ε σ
  | .normal s => .normal s
  | .br d s => if d < k then .normal (unwind s) else .br (d - k) s
  | .ret s => .ret s
  | .abort e => .abort e
  | .timeout => .timeout

theorem Outcome.cross_zero (unwind : σ → σ) (o : Outcome ε σ) : o.cross unwind 0 = o := by
  cases o <;> rfl

/-- Crossing one more construct is leaving the innermost one first. -/
theorem Outcome.cross_label (unwind : σ → σ) (k : Nat) (o : Outcome ε σ) :
    (o.label unwind).cross unwind k = o.cross unwind (k + 1) := by
  cases o with
  | br d s =>
    cases d with
    | zero => simp [cross]
    | succ d => simp [cross]
  | normal s => rfl
  | ret s => rfl
  | abort e => rfl
  | timeout => rfl

/-- A conditional with an optional second arm. -/
def conditional (thn : List (Code ι κ)) (els : Option (List (Code ι κ))) : Code ι κ :=
  match els with
  | some els => .ifElse thn els
  | none => .ifThen thn

/-- Conditions with their arms, as conditionals nested around `els`. -/
def ifChain : List (List (Code ι κ) × List (Code ι κ)) → Option (List (Code ι κ)) →
    Option (List (Code ι κ))
  | [], els => els
  | (condition, arm) :: rest, els => some (condition ++ [conditional arm (ifChain rest els)])

/-- Runs the conditions in order up to the first that holds, then its arm, or `els` when none holds;
`k` conditionals are open at the start. -/
def firstArm (m : Machine ι κ ε σ) (n : Nat) (unwind : σ → σ) (els : Option (List (Code ι κ))) :
    List (List (Code ι κ) × List (Code ι κ)) → Nat → σ → Outcome ε σ
  | [], k, s =>
    match els with
    | some els => (execSeq m n els s).cross unwind k
    | none => .normal s
  | (condition, arm) :: rest, k, s =>
    match execSeq m n condition s with
    | .normal s' =>
      choose (m.test s') (fun t => (execSeq m n arm t).cross unwind (k + 1))
        (firstArm m n unwind els rest (k + 1))
    | o => o.cross unwind k

/-- The code ends with a truth value for the operands of its start. -/
def PushesTruth (m : Machine ι κ ε σ) (n : Nat) (code : List (Code ι κ)) : Prop :=
  ∀ s s', execSeq m n code s = .normal s' → ∃ b t, m.test s' = .ok (b, t) ∧ m.unwind t = m.unwind s

theorem exec_conditional_none (m : Machine ι κ ε σ) (n : Nat) (thn : List (Code ι κ)) (s : σ) :
    exec m n (conditional thn none) s =
      choose (m.test s) (fun t => (execSeq m n thn t).label (m.unwind t)) .normal := rfl

theorem exec_conditional_some (m : Machine ι κ ε σ) (n : Nat) (thn els : List (Code ι κ)) (s : σ) :
    exec m n (conditional thn (some els)) s =
      choose (m.test s) (fun t => (execSeq m n thn t).label (m.unwind t))
        fun t => (execSeq m n els t).label (m.unwind t) := rfl

/-- A chain seen through `k` conditionals runs its first arm. -/
theorem execSeq_ifChain_cross (m : Machine ι κ ε σ) (n : Nat) (unwind : σ → σ)
    {els : Option (List (Code ι κ))} {branches : List (List (Code ι κ) × List (Code ι κ))}
    (h : ∀ branch ∈ branches, PushesTruth m n branch.1) (k : Nat) {s : σ}
    (hs : m.unwind s = unwind) :
    (execSeq m n ((ifChain branches els).getD []) s).cross unwind k =
      firstArm m n unwind els branches k s := by
  induction branches generalizing k s with
  | nil => cases els <;> rfl
  | cons branch rest ih =>
    obtain ⟨condition, arm⟩ := branch
    have hrest : ∀ branch ∈ rest, PushesTruth m n branch.1 :=
      fun branch hb => h branch (List.mem_cons_of_mem _ hb)
    show (execSeq m n (condition ++ [conditional arm (ifChain rest els)]) s).cross unwind k = _
    rw [execSeq_append, firstArm]
    cases hc : execSeq m n condition s with
    | normal s' =>
      obtain ⟨b, t, ht, hunwind⟩ := h (condition, arm) List.mem_cons_self s s' hc
      rw [hs] at hunwind
      rw [Outcome.andThen_normal, execSeq_singleton]
      dsimp only
      rw [ht]
      cases b with
      | true =>
        -- the arm is run inside one conditional more, with the operands of the start
        cases ifChain rest els with
        | none =>
          rw [exec_conditional_none, ht, choose_ok_true, choose_ok_true, hunwind,
            Outcome.cross_label]
        | some els' =>
          rw [exec_conditional_some, ht, choose_ok_true, choose_ok_true, hunwind,
            Outcome.cross_label]
      | false =>
        have hih := ih hrest (k + 1) hunwind
        cases hchain : ifChain rest els with
        | none =>
          rw [hchain] at hih
          rw [exec_conditional_none, ht, choose_ok_false, choose_ok_false, ← hih]
          rfl
        | some els' =>
          rw [hchain] at hih
          rw [exec_conditional_some, ht, choose_ok_false, choose_ok_false, hunwind,
            Outcome.cross_label]
          exact hih
    | br d s' => rfl
    | ret s' => rfl
    | abort e => rfl
    | timeout => rfl

/-- The nest of conditionals runs the first arm whose condition holds. -/
theorem execSeq_ifChain (m : Machine ι κ ε σ) (n : Nat) {els : Option (List (Code ι κ))}
    {branches : List (List (Code ι κ) × List (Code ι κ))}
    (h : ∀ branch ∈ branches, PushesTruth m n branch.1) (s : σ) :
    execSeq m n ((ifChain branches els).getD []) s =
      firstArm m n (m.unwind s) els branches 0 s := by
  rw [← execSeq_ifChain_cross m n (m.unwind s) h 0 rfl, Outcome.cross_zero]

end VirtualPlc.Control
