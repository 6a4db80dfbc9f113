import VirtualPlc.Control.Structured

/-!
# Loops that are left early

`Signal` is what a structured program says after a statement: go on, leave the innermost loop, end
the pass of the innermost loop, or return. `passes` repeats the passes of a loop. Structured code
with relative branch depths says the same by branching, and `Matches` relates the two at a standing,
the place of the code in its innermost loop. `Matches.loop` carries the relation from one pass to a
whole loop with the same bound on both sides, so that both sides exhaust it together.
-/

set_option autoImplicit false

namespace VirtualPlc.Control

universe u v w x

/-- Result of a statement of a program with loops, or of a whole program. -/
inductive Signal (ε : Type u) (σ : Type v) where
  | next (s : σ)
  | exit (s : σ)
  | again (s : σ)
  | ret (s : σ)
  | stop (e : ε)
  | timeout

variable {ε : Type u} {σ : Type v} {δ : Type w} {τ : Type x}

/-- Continue with `f` after going on. -/
def Signal.andThen (a : Signal ε σ) (f : σ → Signal ε σ) : Signal ε σ :=
  match a with
  | .next s => f s
  | .exit s => .exit s
  | .again s => .again s
  | .ret s => .ret s
  | .stop e => .stop e
  | .timeout => .timeout

/-- The end of the body of a loop, where a pass that was ended early goes on. -/
def Signal.settle : Signal ε σ → Signal ε σ
  | .again s => .next s
  | .next s => .next s
  | .exit s => .exit s
  | .ret s => .ret s
  | .stop e => .stop e
  | .timeout => .timeout

/-- The end of a program, where one that has returned goes on. -/
def Signal.finish : Signal ε σ → Signal ε σ
  | .ret s => .next s
  | .next s => .next s
  | .exit s => .exit s
  | .again s => .again s
  | .stop e => .stop e
  | .timeout => .timeout

/-- Repeat the passes of a loop until one of them leaves it. -/
def passes (pass : σ → Signal ε σ) : Nat → σ → Signal ε σ
  | 0, _ => .timeout
  | n + 1, s =>
    match pass s with
    | .next s' => passes pass n s'
    | .again s' => passes pass n s'
    | .exit s' => .next s'
    | .ret s' => .ret s'
    | .stop e => .stop e
    | .timeout => .timeout

/-- The signal does not ask for a loop around it. -/
def Signal.Closed : Signal ε σ → Prop
  | .exit _ => False
  | .again _ => False
  | .next _ => True
  | .ret _ => True
  | .stop _ => True
  | .timeout => True

theorem Signal.Closed.andThen {a : Signal ε σ} {f : σ → Signal ε σ} (h : a.Closed)
    (hf : ∀ s, (f s).Closed) : (a.andThen f).Closed := by
  cases a with
  | next s => exact hf s
  | exit s => exact h
  | again s => exact h
  | ret s => exact h
  | stop e => exact h
  | timeout => exact h

/-- A loop catches what its passes ask of it. -/
theorem closed_passes (pass : σ → Signal ε σ) (n : Nat) (s : σ) : (passes pass n s).Closed := by
  induction n generalizing s with
  | zero => trivial
  | succ n ih =>
    rw [passes]
    cases pass s with
    | next s' => exact ih s'
    | again s' => exact ih s'
    | exit s' => trivial
    | ret s' => trivial
    | stop e => trivial
    | timeout => trivial

/-- The place of code in its innermost loop: the number of conditionals between them, whether
falling through ends the pass of the loop, and whether branching to the innermost label does. -/
structure Standing where
  depth : Nat
  slides : Prop
  jumps : Prop

section Relation

variable (R Q : σ → τ → Prop) (reason : ε → δ)

/-- The outcome says at the standing `p` what the signal says. -/
def Matches (p : Standing) : Signal ε σ → Outcome δ τ → Prop
  | .next s, o => ∃ t, o = .normal t ∧ R s t
  | .exit s, o => ∃ t, o = .br (p.depth + 1) t ∧ R s t
  | .again s, o => ∃ t, (p.slides ∧ o = .normal t ∨ p.jumps ∧ o = .br 0 t) ∧ R s t
  | .ret s, o => ∃ t, o = .ret t ∧ Q s t
  | .stop e, o => o = .abort (reason e)
  | .timeout, o => o = .timeout

/-- The outcome of the code between the labels of a loop says what the signal of a pass says. -/
def MatchesPass : Signal ε σ → Outcome δ τ → Prop
  | .next s, o => ∃ t, o = .br 0 t ∧ R s t
  | .again s, o => ∃ t, o = .br 0 t ∧ R s t
  | .exit s, o => ∃ t, o = .br 1 t ∧ R s t
  | .ret s, o => ∃ t, o = .ret t ∧ Q s t
  | .stop e, o => o = .abort (reason e)
  | .timeout, o => o = .timeout

end Relation

variable {R Q : σ → τ → Prop} {reason : ε → δ} {p q : Standing} {a : Signal ε σ} {o : Outcome δ τ}

/-- Code in sequence: where falling through ends the pass, the code that follows does nothing. -/
theorem Matches.andThen {f : σ → Signal ε σ} {g : τ → Outcome δ τ} (h : Matches R Q reason p a o)
    (hdepth : p.depth = q.depth) (hslides : p.slides → q.slides ∧ ∀ t, g t = .normal t)
    (hjumps : p.jumps → q.jumps) (hf : ∀ s t, R s t → Matches R Q reason q (f s) (g t)) :
    Matches R Q reason q (a.andThen f) (o.andThen g) := by
  cases a with
  | next s =>
    obtain ⟨t, rfl, ht⟩ := h
    exact hf s t ht
  | exit s =>
    obtain ⟨t, rfl, ht⟩ := h
    exact ⟨t, by rw [hdepth, Outcome.andThen_br], ht⟩
  | again s =>
    obtain ⟨t, ho, ht⟩ := h
    refine ⟨t, ?_, ht⟩
    rcases ho with ⟨hp, rfl⟩ | ⟨hp, rfl⟩
    · obtain ⟨hq, hg⟩ := hslides hp
      exact .inl ⟨hq, hg t⟩
    · exact .inr ⟨hjumps hp, rfl⟩
  | ret s =>
    obtain ⟨t, rfl, ht⟩ := h
    exact ⟨t, rfl, ht⟩
  | stop e =>
    obtain rfl : o = _ := h
    rfl
  | timeout =>
    obtain rfl : o = _ := h
    rfl

/-- An arm of a conditional: both ways to end the pass fall out of the conditional. -/
theorem Matches.arm {unwind : τ → τ} (h : Matches R Q reason q a o) (hdepth : q.depth = p.depth + 1)
    (hslides : q.slides → p.slides) (hjumps : q.jumps → p.slides)
    (hunwind : ∀ s t, R s t → R s (unwind t)) : Matches R Q reason p a (o.label unwind) := by
  cases a with
  | next s =>
    obtain ⟨t, rfl, ht⟩ := h
    exact ⟨t, rfl, ht⟩
  | exit s =>
    obtain ⟨t, rfl, ht⟩ := h
    exact ⟨t, by rw [hdepth, Outcome.label_br_succ], ht⟩
  | again s =>
    obtain ⟨t, ho, ht⟩ := h
    rcases ho with ⟨hq, rfl⟩ | ⟨hq, rfl⟩
    · exact ⟨t, .inl ⟨hslides hq, rfl⟩, ht⟩
    · exact ⟨unwind t, .inl ⟨hjumps hq, rfl⟩, hunwind s t ht⟩
  | ret s =>
    obtain ⟨t, rfl, ht⟩ := h
    exact ⟨t, rfl, ht⟩
  | stop e =>
    obtain rfl : o = _ := h
    rfl
  | timeout =>
    obtain rfl : o = _ := h
    rfl

/-- A body directly in its loop before more code of the pass. -/
theorem Matches.settle {f : σ → Signal ε σ} {g : τ → Outcome δ τ} (h : Matches R Q reason p a o)
    (hdepth : p.depth = 0) (hjumps : ¬ p.jumps)
    (hf : ∀ s t, R s t → MatchesPass R Q reason (f s) (g t)) :
    MatchesPass R Q reason (a.settle.andThen f) (o.andThen g) := by
  cases a with
  | next s =>
    obtain ⟨t, rfl, ht⟩ := h
    exact hf s t ht
  | exit s =>
    obtain ⟨t, rfl, ht⟩ := h
    exact ⟨t, by rw [hdepth, Outcome.andThen_br], ht⟩
  | again s =>
    obtain ⟨t, ho, ht⟩ := h
    rcases ho with ⟨-, rfl⟩ | ⟨hp, -⟩
    · exact hf s t ht
    · exact absurd hp hjumps
  | ret s =>
    obtain ⟨t, rfl, ht⟩ := h
    exact ⟨t, rfl, ht⟩
  | stop e =>
    obtain rfl : o = _ := h
    rfl
  | timeout =>
    obtain rfl : o = _ := h
    rfl

/-- A body directly in its loop with nothing but the jump back after it. -/
theorem Matches.repeated (h : Matches R Q reason p a o) (hdepth : p.depth = 0) :
    MatchesPass R Q reason a (o.andThen fun t => .br 0 t) := by
  cases a with
  | next s =>
    obtain ⟨t, rfl, ht⟩ := h
    exact ⟨t, rfl, ht⟩
  | exit s =>
    obtain ⟨t, rfl, ht⟩ := h
    exact ⟨t, by rw [hdepth, Outcome.andThen_br], ht⟩
  | again s =>
    obtain ⟨t, ho, ht⟩ := h
    rcases ho with ⟨-, rfl⟩ | ⟨-, rfl⟩ <;> exact ⟨t, rfl, ht⟩
  | ret s =>
    obtain ⟨t, rfl, ht⟩ := h
    exact ⟨t, rfl, ht⟩
  | stop e =>
    obtain rfl : o = _ := h
    rfl
  | timeout =>
    obtain rfl : o = _ := h
    rfl

/-- A loop in its block: if every pass is matched, the whole loop is, under the same bound. -/
theorem Matches.loop {pass : σ → Signal ε σ} {body : τ → Outcome δ τ} {unwind : τ → τ}
    (hpass : ∀ s t, R s t → MatchesPass R Q reason (pass s) (body t))
    (hunwind : ∀ s t, R s t → R s (unwind t)) (n : Nat) {s : σ} {t : τ} (h : R s t) :
    Matches R Q reason p (passes pass n s) ((iterate unwind body n t).label unwind) := by
  induction n generalizing s t with
  | zero => rfl
  | succ n ih =>
    have hst := hpass s t h
    rw [passes, iterate]
    cases ha : pass s with
    | next s' =>
      rw [ha] at hst
      obtain ⟨t', ho, ht⟩ := hst
      rw [ho]
      exact ih (hunwind s' t' ht)
    | again s' =>
      rw [ha] at hst
      obtain ⟨t', ho, ht⟩ := hst
      rw [ho]
      exact ih (hunwind s' t' ht)
    -- an exit ends the loop, past its label
    | exit s' =>
      rw [ha] at hst
      obtain ⟨t', ho, ht⟩ := hst
      rw [ho]
      exact ⟨unwind t', rfl, hunwind s' t' ht⟩
    | ret s' =>
      rw [ha] at hst
      obtain ⟨t', ho, ht⟩ := hst
      rw [ho]
      exact ⟨t', rfl, ht⟩
    | stop e =>
      rw [ha] at hst
      have ho : body t = .abort (reason e) := hst
      rw [ho]
      rfl
    | timeout =>
      rw [ha] at hst
      have ho : body t = .timeout := hst
      rw [ho]
      rfl

end VirtualPlc.Control
