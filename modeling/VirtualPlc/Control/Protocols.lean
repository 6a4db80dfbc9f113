import Mathlib.Logic.Relation
import Mathlib.Tactic.Common

/-!
# Protocols over calls

What a component may be asked for, and in which order. An acceptor reads the calls one by one and
refuses a call that breaks the protocol. A caller that keeps an invariant between its own state and
the state of the acceptor never breaks the protocol, over any number of operations (`follows_run`).
-/

set_option autoImplicit false

namespace VirtualPlc.Control

universe u v w x

/-- A protocol: where it starts, and what each call leads to; `none` refuses the call. -/
structure Acceptor (κ : Type u) (μ : Type v) where
  start : μ
  step : μ → κ → Option μ

variable {κ : Type u} {μ : Type v} {σ : Type w} {ι : Type x}

namespace Acceptor

variable (P : Acceptor κ μ)

/-- Where calls lead to from some point of the protocol. -/
def reads (mode : μ) : List κ → Option μ
  | [] => some mode
  | call :: calls => (P.step mode call).bind fun mode' => reads mode' calls

/-- Where calls lead to from the start. -/
def after (calls : List κ) : Option μ := P.reads P.start calls

@[simp] theorem reads_nil (mode : μ) : P.reads mode [] = some mode := rfl

theorem reads_cons (mode : μ) (call : κ) (calls : List κ) :
    P.reads mode (call :: calls) = (P.step mode call).bind fun mode' => P.reads mode' calls := rfl

theorem reads_append (mode : μ) (calls more : List κ) :
    P.reads mode (calls ++ more) = (P.reads mode calls).bind fun mode' => P.reads mode' more := by
  induction calls generalizing mode with
  | nil => rfl
  | cons call rest ih =>
    rw [List.cons_append, reads_cons, reads_cons, Option.bind_assoc]
    congr 1
    funext mode'
    exact ih mode'

theorem after_append (calls more : List κ) :
    P.after (calls ++ more) = (P.after calls).bind fun mode => P.reads mode more :=
  P.reads_append _ _ _

/-- A protocol is kept from the first call on. -/
theorem after_of_append {calls more : List κ} {mode : μ} (h : P.after (calls ++ more) = some mode) :
    ∃ mode', P.after calls = some mode' ∧ P.reads mode' more = some mode := by
  rw [after_append] at h
  exact Option.bind_eq_some_iff.1 h

/-- A call after which nothing is allowed has not been made while something is. -/
theorem not_mem_of_final {final : κ}
    (hfinal : ∀ mode mode', P.step mode final = some mode' → ∀ call, P.step mode' call = none)
    {calls : List κ} {mode : μ} (h : P.after calls = some mode) {call : κ}
    (hcall : P.step mode call ≠ none) : final ∉ calls := by
  intro hmem
  obtain ⟨before, later, rfl⟩ := List.append_of_mem hmem
  obtain ⟨mode', -, hlater⟩ := P.after_of_append h
  rw [reads_cons] at hlater
  obtain ⟨mode'', hstep, hrest⟩ := Option.bind_eq_some_iff.1 hlater
  have hnone := hfinal mode' mode'' hstep
  cases later with
  | nil =>
    obtain rfl : mode'' = mode := Option.some.inj hrest
    exact hcall (hnone call)
  | cons next rest =>
    rw [reads_cons, hnone] at hrest
    cases hrest

/-- The calls so far are accepted, and the invariant holds where they lead to. -/
def Follows (record : σ → List κ) (Inv : σ → μ → Prop) (s : σ) : Prop :=
  ∃ mode, P.after (record s) = some mode ∧ Inv s mode

variable {P} {record : σ → List κ} {Inv : σ → μ → Prop} {s s' : σ}

/-- One operation of the caller, which makes the calls `new`. -/
theorem Follows.step (h : P.Follows record Inv s) {new : List κ}
    (hrecord : record s' = record s ++ new)
    (hnew : ∀ mode, Inv s mode → ∃ mode', P.reads mode new = some mode' ∧ Inv s' mode') :
    P.Follows record Inv s' := by
  obtain ⟨mode, hafter, hinv⟩ := h
  obtain ⟨mode', hreads, hinv'⟩ := hnew mode hinv
  refine ⟨mode', ?_, hinv'⟩
  rw [hrecord, after_append, hafter, Option.bind_some, hreads]

/-- A caller whose operations keep the invariant follows the protocol in every run. -/
theorem follows_run {next : σ → ι → σ}
    (hnext : ∀ s i, P.Follows record Inv s → P.Follows record Inv (next s i))
    (h : P.Follows record Inv s) (run : List ι) : P.Follows record Inv (run.foldl next s) := by
  induction run generalizing s with
  | nil => exact h
  | cons i rest ih => exact ih (hnext s i h)

end Acceptor

end VirtualPlc.Control
