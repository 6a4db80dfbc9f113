import Mathlib.Logic.Relation
import VirtualPlc.Control.Structured

/-!
# Points of control

A position is the code that is left in the innermost construct, with the enclosing constructs and
what follows each. `Step` runs structured code from position to position, so that the target of a
branch is a position; `steps_of_execSeq` shows that it follows `execSeq`.
-/

set_option autoImplicit false

namespace VirtualPlc.Control

universe u v w x

/-- An enclosing construct: the body to repeat if it is a loop, the code after it, and the state in
which it was entered. -/
structure Level (ι : Type u) (κ : Type v) (σ : Type x) where
  again : Option (List (Code ι κ))
  after : List (Code ι κ)
  entry : σ

/-- The code that is left in the innermost construct, and the enclosing constructs from the inside.
-/
structure Position (ι : Type u) (κ : Type v) (σ : Type x) where
  code : List (Code ι κ)
  levels : List (Level ι κ σ)

variable {ι : Type u} {κ : Type v} {ε : Type w} {σ : Type x}

/-- Where a branch to a construct goes: to the start of a loop, to the end of anything else. -/
def Level.target (l : Level ι κ σ) (outer : List (Level ι κ σ)) : Position ι κ σ :=
  match l.again with
  | none => ⟨l.after, outer⟩
  | some body => ⟨body, l :: outer⟩

/-- The target of a branch to the enclosing construct number `d`, with the state in which that
construct was entered. -/
def branch (d : Nat) (levels : List (Level ι κ σ)) : Option (Position ι κ σ × σ) :=
  match levels.drop d with
  | [] => none
  | l :: outer => some (l.target outer, l.entry)

/-- One step between positions. -/
inductive Step (m : Machine ι κ ε σ) : Position ι κ σ × σ → Position ι κ σ × σ → Prop where
  | op {i : ι} {cs : List (Code ι κ)} {ls : List (Level ι κ σ)} {s s' : σ} :
      m.step i s = .normal s' → Step m (⟨.op i :: cs, ls⟩, s) (⟨cs, ls⟩, s')
  | br {i : ι} {cs : List (Code ι κ)} {ls : List (Level ι κ σ)} {s s' : σ} {d : Nat}
      {p : Position ι κ σ} {entry : σ} :
      m.step i s = .br d s' → branch d ls = some (p, entry) →
      Step m (⟨.op i :: cs, ls⟩, s) (p, m.unwind entry s')
  | probe {k : κ} {cs : List (Code ι κ)} {ls : List (Level ι κ σ)} {s : σ} :
      m.probe k s = none → Step m (⟨.probe k :: cs, ls⟩, s) (⟨cs, ls⟩, s)
  | block {body cs : List (Code ι κ)} {ls : List (Level ι κ σ)} {s : σ} :
      Step m (⟨.block body :: cs, ls⟩, s) (⟨body, ⟨none, cs, s⟩ :: ls⟩, s)
  | loop {body cs : List (Code ι κ)} {ls : List (Level ι κ σ)} {s : σ} :
      Step m (⟨.loop body :: cs, ls⟩, s) (⟨body, ⟨some body, cs, s⟩ :: ls⟩, s)
  | ifThen {thn cs : List (Code ι κ)} {ls : List (Level ι κ σ)} {s s' : σ} :
      m.test s = .ok (true, s') →
      Step m (⟨.ifThen thn :: cs, ls⟩, s) (⟨thn, ⟨none, cs, s'⟩ :: ls⟩, s')
  | skip {thn cs : List (Code ι κ)} {ls : List (Level ι κ σ)} {s s' : σ} :
      m.test s = .ok (false, s') → Step m (⟨.ifThen thn :: cs, ls⟩, s) (⟨cs, ls⟩, s')
  | ifElse {thn els cs : List (Code ι κ)} {ls : List (Level ι κ σ)} {s s' : σ} {b : Bool} :
      m.test s = .ok (b, s') →
      Step m (⟨.ifElse thn els :: cs, ls⟩, s) (⟨if b then thn else els, ⟨none, cs, s'⟩ :: ls⟩, s')
  | fall {l : Level ι κ σ} {ls : List (Level ι κ σ)} {s : σ} :
      Step m (⟨[], l :: ls⟩, s) (⟨l.after, ls⟩, s)

/-- Any number of steps. -/
abbrev Steps (m : Machine ι κ ε σ) : Position ι κ σ × σ → Position ι κ σ × σ → Prop :=
  Relation.ReflTransGen (Step m)

/-- Leaving constructs at their ends. -/
inductive Falls : Position ι κ σ → Position ι κ σ → Prop where
  | refl (p : Position ι κ σ) : Falls p p
  | fall {l : Level ι κ σ} {ls : List (Level ι κ σ)} {p : Position ι κ σ} :
      Falls ⟨l.after, ls⟩ p → Falls ⟨[], l :: ls⟩ p

/-! ## Branches -/

theorem branch_zero (l : Level ι κ σ) (ls : List (Level ι κ σ)) :
    branch 0 (l :: ls) = some (l.target ls, l.entry) := rfl

theorem branch_succ (d : Nat) (l : Level ι κ σ) (ls : List (Level ι κ σ)) :
    branch (d + 1) (l :: ls) = branch d ls := rfl

theorem branch_append (inner outer : List (Level ι κ σ)) (d : Nat) :
    branch (inner.length + d) (inner ++ outer) = branch d outer := by
  rw [branch, branch, List.drop_append, List.drop_eq_nil_of_le (by omega), Nat.add_sub_cancel_left,
    List.nil_append]

/-- The target of a branch keeps as many constructs as are outside its label, and the label of a
loop. -/
theorem branch_levels {d : Nat} {ls : List (Level ι κ σ)} {p : Position ι κ σ} {entry : σ}
    (h : branch d ls = some (p, entry)) :
    d < ls.length ∧ ls.length ≤ p.levels.length + d + 1 ∧ p.levels.length + d ≤ ls.length := by
  rw [branch] at h
  cases hd : ls.drop d with
  | nil =>
    rw [hd] at h
    cases h
  | cons l outer =>
    rw [hd] at h
    have hlength : outer.length + 1 = ls.length - d := by
      rw [← List.length_drop, hd, List.length_cons]
    obtain ⟨rfl, -⟩ := Prod.mk.inj (Option.some.inj h)
    rw [Level.target]
    split
    · exact ⟨by omega, by show _ ≤ outer.length + d + 1; omega, by show outer.length + d ≤ _; omega⟩
    · have hcons : (l :: outer).length = outer.length + 1 := rfl
      exact ⟨by omega, by show _ ≤ (l :: outer).length + d + 1; omega,
        by show (l :: outer).length + d ≤ _; omega⟩

theorem Falls.of_code {p q : Position ι κ σ} (h : Falls p q) (hc : p.code ≠ []) : p = q := by
  cases h with
  | refl => rfl
  | fall h => exact absurd rfl hc

/-! ## The steps follow the runs -/

/-- The configuration in which code with the outcome `o` leaves control, before the code `k`. -/
def Resumes (m : Machine ι κ ε σ) (o : Outcome ε σ) (k : List (Code ι κ))
    (ls : List (Level ι κ σ)) (c : Position ι κ σ × σ) : Prop :=
  match o with
  | .normal s => c = (⟨k, ls⟩, s)
  | .br d s => ∃ p entry, branch d ls = some (p, entry) ∧ c = (p, m.unwind entry s)
  | .ret _ | .abort _ | .timeout => False

section Adequacy

variable {m : Machine ι κ ε σ} {n : Nat} {k body : List (Code ι κ)} {ls : List (Level ι κ σ)}
  {c : Position ι κ σ × σ} {o : Outcome ε σ}

/-- Leaving the body of a block or of an arm of a conditional. -/
theorem steps_of_label {s s₀ : σ}
    (hbody : ∀ c', Resumes m o [] (⟨none, k, s₀⟩ :: ls) c' →
      Steps m (⟨body, ⟨none, k, s₀⟩ :: ls⟩, s) c')
    (h : Resumes m (o.label (m.unwind s₀)) k ls c) :
    Steps m (⟨body, ⟨none, k, s₀⟩ :: ls⟩, s) c := by
  cases o with
  | normal s' =>
    obtain rfl : c = _ := h
    exact .tail (hbody _ rfl) .fall
  | br d s' =>
    cases d with
    | zero =>
      obtain rfl : c = _ := h
      exact hbody _ ⟨_, _, rfl, rfl⟩
    | succ d =>
      obtain ⟨p, entry, hp, rfl⟩ := h
      exact hbody _ ⟨p, entry, hp, rfl⟩
  | ret s' => exact False.elim h
  | abort e => exact False.elim h
  | timeout => exact False.elim h

/-- The iterations of a loop. -/
theorem steps_of_iterate {run : σ → Outcome ε σ} {s₀ : σ}
    (hbody : ∀ s c', Resumes m (run s) [] (⟨some body, k, s₀⟩ :: ls) c' →
      Steps m (⟨body, ⟨some body, k, s₀⟩ :: ls⟩, s) c') :
    ∀ (n : Nat) (s : σ), Resumes m (iterate (m.unwind s₀) run n s) k ls c →
      Steps m (⟨body, ⟨some body, k, s₀⟩ :: ls⟩, s) c
  | 0, _, h => False.elim h
  | n + 1, s, h => by
    have hs := hbody s
    rw [iterate] at h
    cases hr : run s with
    | normal s' =>
      rw [hr] at h hs
      obtain rfl : c = _ := h
      exact .tail (hs _ rfl) .fall
    | br d s' =>
      rw [hr] at h hs
      cases d with
      | zero => exact .trans (hs _ ⟨_, _, rfl, rfl⟩) (steps_of_iterate hbody n _ h)
      | succ d =>
        obtain ⟨p, entry, hp, rfl⟩ := h
        exact hs _ ⟨p, entry, hp, rfl⟩
    | ret s' =>
      rw [hr] at h
      exact False.elim h
    | abort e =>
      rw [hr] at h
      exact False.elim h
    | timeout =>
      rw [hr] at h
      exact False.elim h

end Adequacy

mutual
theorem steps_of_exec (m : Machine ι κ ε σ) (n : Nat) :
    ∀ (code : Code ι κ) (s : σ) (k : List (Code ι κ)) (ls : List (Level ι κ σ))
      (c : Position ι κ σ × σ), Resumes m (exec m n code s) k ls c →
      Steps m (⟨code :: k, ls⟩, s) c
  | .op i, s, k, ls, c, h => by
    rw [exec_op] at h
    cases hstep : m.step i s with
    | normal s' =>
      rw [hstep] at h
      obtain rfl : c = _ := h
      exact .single (.op hstep)
    | br d s' =>
      rw [hstep] at h
      obtain ⟨p, entry, hp, rfl⟩ := h
      exact .single (.br hstep hp)
    | ret s' =>
      rw [hstep] at h
      exact False.elim h
    | abort e =>
      rw [hstep] at h
      exact False.elim h
    | timeout =>
      rw [hstep] at h
      exact False.elim h
  | .probe o, s, k, ls, c, h => by
    rw [exec_probe] at h
    cases hprobe : m.probe o s with
    | none =>
      rw [hprobe] at h
      obtain rfl : c = _ := h
      exact .single (.probe hprobe)
    | some e =>
      rw [hprobe] at h
      exact False.elim h
  | .block body, s, k, ls, c, h => by
    -- the body runs inside a level that a branch to it leaves
    have hbody := steps_of_execSeq m n body s [] (⟨none, k, s⟩ :: ls)
    rw [List.append_nil] at hbody
    exact .head .block (steps_of_label hbody h)
  | .loop body, s, k, ls, c, h => by
    -- the level of a loop runs its body again
    have hbody := fun s' => steps_of_execSeq m n body s' [] (⟨some body, k, s⟩ :: ls)
    rw [List.append_nil] at hbody
    exact .head .loop (steps_of_iterate hbody n s h)
  | .ifThen thn, s, k, ls, c, h => by
    rw [exec_ifThen] at h
    cases htest : m.test s with
    | error e =>
      rw [htest] at h
      exact False.elim h
    | ok r =>
      obtain ⟨b, s'⟩ := r
      rw [htest] at h
      cases b with
      | true =>
        have hthn := steps_of_execSeq m n thn s' [] (⟨none, k, s'⟩ :: ls)
        rw [List.append_nil] at hthn
        exact .head (.ifThen htest) (steps_of_label hthn h)
      | false =>
        obtain rfl : c = _ := h
        exact .single (.skip htest)
  | .ifElse thn els, s, k, ls, c, h => by
    rw [exec_ifElse] at h
    cases htest : m.test s with
    | error e =>
      rw [htest] at h
      exact False.elim h
    | ok r =>
      obtain ⟨b, s'⟩ := r
      rw [htest] at h
      cases b with
      | true =>
        have hthn := steps_of_execSeq m n thn s' [] (⟨none, k, s'⟩ :: ls)
        rw [List.append_nil] at hthn
        exact .head (.ifElse htest) (steps_of_label hthn h)
      | false =>
        have hels := steps_of_execSeq m n els s' [] (⟨none, k, s'⟩ :: ls)
        rw [List.append_nil] at hels
        exact .head (.ifElse htest) (steps_of_label hels h)
/-- Where a run of `code` leaves control, the steps from its start lead. -/
theorem steps_of_execSeq (m : Machine ι κ ε σ) (n : Nat) :
    ∀ (code : List (Code ι κ)) (s : σ) (k : List (Code ι κ)) (ls : List (Level ι κ σ))
      (c : Position ι κ σ × σ), Resumes m (execSeq m n code s) k ls c →
      Steps m (⟨code ++ k, ls⟩, s) c
  | [], s, k, ls, c, h => by
    obtain rfl : c = _ := h
    exact .refl
  | code :: rest, s, k, ls, c, h => by
    have hcode := steps_of_exec m n code s (rest ++ k) ls
    rw [execSeq_cons] at h
    rw [List.cons_append]
    cases hr : exec m n code s with
    | normal s' =>
      rw [hr] at h hcode
      exact .trans (hcode _ rfl) (steps_of_execSeq m n rest s' k ls c h)
    | br d s' =>
      rw [hr] at h hcode
      exact hcode c h
    | ret s' =>
      rw [hr] at h
      exact False.elim h
    | abort e =>
      rw [hr] at h
      exact False.elim h
    | timeout =>
      rw [hr] at h
      exact False.elim h
end

end VirtualPlc.Control
