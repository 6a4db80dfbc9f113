import VirtualPlc.Control.Structured

/-!
# Machines that carry more state

A machine may run beside a state that its own operations neither read nor change, such as that of
the system it calls. `Machine.Carries` says that one machine is another with such a state added,
except where it stops for a given reason. Its runs are then those of the other machine
(`execSeq_follows`), and the added state keeps what each operation keeps.
-/

set_option autoImplicit false

namespace VirtualPlc.Control

universe u v w x y

variable {ι : Type u} {κ : Type v} {ε : Type w} {σ : Type x} {τ : Type y}

/-- The same outcome in another state. -/
def Outcome.map {σ' : Type y} (f : σ → σ') : Outcome ε σ → Outcome ε σ'
  | .normal s => .normal (f s)
  | .br d s => .br d (f s)
  | .ret s => .ret (f s)
  | .abort e => .abort e
  | .timeout => .timeout

/-- The second outcome is the first one without the added state, which has `Q`, unless the first
one stopped for the reason `e`. -/
def Outcome.Follows (e : ε) (Q : τ → Prop) (a : Outcome ε (σ × τ)) (b : Outcome ε σ) : Prop :=
  match a with
  | .normal s => Q s.2 ∧ b = .normal s.1
  | .br d s => Q s.2 ∧ b = .br d s.1
  | .ret s => Q s.2 ∧ b = .ret s.1
  | .abort e' => e' = e ∨ b = .abort e'
  | .timeout => b = .timeout

section Outcomes

variable {e : ε} {Q : τ → Prop} {a : Outcome ε (σ × τ)} {b : Outcome ε σ}

theorem Outcome.follows_map (t : τ) (ht : Q t) (b : Outcome ε σ) :
    (b.map fun s => (s, t)).Follows e Q b := by
  cases b with
  | normal s => exact ⟨ht, rfl⟩
  | br d s => exact ⟨ht, rfl⟩
  | ret s => exact ⟨ht, rfl⟩
  | abort e' => exact Or.inr rfl
  | timeout => rfl

theorem Outcome.Follows.andThen {f : σ × τ → Outcome ε (σ × τ)} {g : σ → Outcome ε σ}
    (h : a.Follows e Q b) (hfg : ∀ s t, Q t → (f (s, t)).Follows e Q (g s)) :
    (a.andThen f).Follows e Q (b.andThen g) := by
  cases a with
  | normal s =>
    obtain ⟨hs, rfl⟩ := h
    exact hfg s.1 s.2 hs
  | br d s =>
    obtain ⟨hs, rfl⟩ := h
    exact ⟨hs, rfl⟩
  | ret s =>
    obtain ⟨hs, rfl⟩ := h
    exact ⟨hs, rfl⟩
  | abort e' =>
    rcases h with rfl | rfl
    · exact Or.inl rfl
    · exact Or.inr rfl
  | timeout =>
    obtain rfl : b = .timeout := h
    rfl

theorem Outcome.Follows.label {f : σ × τ → σ × τ} {g : σ → σ} (h : a.Follows e Q b)
    (hfg : ∀ s, f s = (g s.1, s.2)) : (a.label f).Follows e Q (b.label g) := by
  cases a with
  | normal s =>
    obtain ⟨hs, rfl⟩ := h
    exact ⟨hs, rfl⟩
  | br d s =>
    obtain ⟨hs, rfl⟩ := h
    cases d with
    | zero =>
      rw [Outcome.label_br_zero, Outcome.label_br_zero, hfg]
      exact ⟨hs, rfl⟩
    | succ d => exact ⟨hs, rfl⟩
  | ret s =>
    obtain ⟨hs, rfl⟩ := h
    exact ⟨hs, rfl⟩
  | abort e' =>
    rcases h with rfl | rfl
    · exact Or.inl rfl
    · exact Or.inr rfl
  | timeout =>
    obtain rfl : b = .timeout := h
    rfl

theorem Outcome.Follows.choose {r : Except ε (Bool × σ)} {t : τ}
    {f f' : σ × τ → Outcome ε (σ × τ)} {g g' : σ → Outcome ε σ}
    (hfg : ∀ s, (f (s, t)).Follows e Q (g s)) (hfg' : ∀ s, (f' (s, t)).Follows e Q (g' s)) :
    (Control.choose (r.map fun p => (p.1, p.2, t)) f f').Follows e Q
      (Control.choose r g g') := by
  rcases r with e' | ⟨c, s⟩
  · exact Or.inr rfl
  · cases c
    · exact hfg' s
    · exact hfg s

theorem iterate_follows {unwind' : σ × τ → σ × τ} {unwind : σ → σ}
    {body' : σ × τ → Outcome ε (σ × τ)} {body : σ → Outcome ε σ}
    (hunwind : ∀ s, unwind' s = (unwind s.1, s.2))
    (hbody : ∀ s t, Q t → (body' (s, t)).Follows e Q (body s)) :
    ∀ n s t, Q t → (iterate unwind' body' n (s, t)).Follows e Q (iterate unwind body n s)
  | 0, _, _, _ => rfl
  | n + 1, s, t, ht => by
    have hs := hbody s t ht
    simp only [iterate]
    cases hb : body' (s, t) with
    | normal s' =>
      rw [hb] at hs
      obtain ⟨hs', heq⟩ := hs
      rw [heq]
      exact ⟨hs', rfl⟩
    | br d s' =>
      rw [hb] at hs
      obtain ⟨hs', heq⟩ := hs
      rw [heq]
      cases d with
      | zero =>
        -- the next pass starts in the unwound state
        simp only
        rw [hunwind]
        exact iterate_follows hunwind hbody n _ _ hs'
      | succ d => exact ⟨hs', rfl⟩
    | ret s' =>
      rw [hb] at hs
      obtain ⟨hs', heq⟩ := hs
      rw [heq]
      exact ⟨hs', rfl⟩
    | abort e' =>
      rw [hb] at hs
      rcases hs with rfl | heq
      · exact Or.inl rfl
      · rw [heq]
        exact Or.inr rfl
    | timeout =>
      rw [hb] at hs
      have heq : body s = .timeout := hs
      rw [heq]
      rfl

end Outcomes

/-! ## Runs -/

/-- `m'` is `m` beside a state that keeps `Q`, except where it stops for the reason `e`. -/
structure Machine.Carries (m' : Machine ι κ ε (σ × τ)) (m : Machine ι κ ε σ) (e : ε)
    (Q : τ → Prop) : Prop where
  step : ∀ i s t, Q t → (m'.step i (s, t)).Follows e Q (m.step i s)
  probe : ∀ k s, m'.probe k s = m.probe k s.1
  test : ∀ s t, m'.test (s, t) = (m.test s).map fun p => (p.1, p.2, t)
  unwind : ∀ entry s, m'.unwind entry s = (m.unwind entry.1 s.1, s.2)

section Runs

variable {m' : Machine ι κ ε (σ × τ)} {m : Machine ι κ ε σ} {e : ε} {Q : τ → Prop}

theorem Machine.Carries.observe (h : m'.Carries m e Q) (k : κ) (s : σ) {t : τ} (ht : Q t) :
    (Control.observe (m'.probe k (s, t)) (s, t)).Follows e Q
      (Control.observe (m.probe k s) s) := by
  rw [h.probe]
  cases m.probe k s with
  | none => exact ⟨ht, rfl⟩
  | some e' => exact Or.inr rfl

mutual
theorem exec_follows (h : m'.Carries m e Q) (n : Nat) :
    ∀ (c : Code ι κ) (s : σ) (t : τ), Q t → (exec m' n c (s, t)).Follows e Q (exec m n c s)
  | .op i, s, t, ht => h.step i s t ht
  | .probe k, s, _, ht => h.observe k s ht
  | .block body, s, t, ht => (execSeq_follows h n body s t ht).label (h.unwind (s, t))
  | .loop body, s, t, ht =>
    iterate_follows (h.unwind (s, t)) (execSeq_follows h n body) n s t ht
  | .ifThen thn, s, t, ht => by
    rw [exec_ifThen, exec_ifThen, h.test]
    apply Outcome.Follows.choose
    · intro s'
      exact (execSeq_follows h n thn s' t ht).label (h.unwind (s', t))
    · exact fun _ => ⟨ht, rfl⟩
  | .ifElse thn els, s, t, ht => by
    rw [exec_ifElse, exec_ifElse, h.test]
    apply Outcome.Follows.choose
    · intro s'
      exact (execSeq_follows h n thn s' t ht).label (h.unwind (s', t))
    · intro s'
      exact (execSeq_follows h n els s' t ht).label (h.unwind (s', t))
theorem execSeq_follows (h : m'.Carries m e Q) (n : Nat) :
    ∀ (cs : List (Code ι κ)) (s : σ) (t : τ), Q t →
      (execSeq m' n cs (s, t)).Follows e Q (execSeq m n cs s)
  | [], _, _, ht => ⟨ht, rfl⟩
  | c :: cs, s, t, ht => (exec_follows h n c s t ht).andThen (execSeq_follows h n cs)
end

end Runs

end VirtualPlc.Control
