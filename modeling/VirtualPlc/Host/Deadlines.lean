import VirtualPlc.Host.Runs

/-!
# The deadline of an execution

The engine takes a deadline relative to its epoch, but the host gives it the epoch counter plus the
ticks of a cycle. The budget of a call thus grows with the counter: it is the intended one exactly
when the counter is zero or the sum wraps (`ticksLeft_le_iff`). What is noted of an execution is the
number of ticks within which its code is interrupted (`ticksLeft_entry_le_iff`).
-/

set_option autoImplicit false

namespace VirtualPlc.Host

/-- Whether an event is a tick of the epoch. -/
def Event.isTick : Event → Bool
  | .tick => true
  | .store _ _ | .grow _ | .host _ => false

/-- The sum of the epoch counter and the ticks of a cycle is at most the ticks of a cycle. -/
def SumFits (counter max : BitVec 64) : Prop := counter = 0 ∨ 2 ^ 64 ≤ counter.toNat + max.toNat

theorem sumFits_iff (counter max : BitVec 64) :
    (counter + max).toNat ≤ max.toNat ↔ SumFits counter max := by
  have hcounter := counter.isLt
  have hmax := max.isLt
  have hzero : counter = 0 ↔ counter.toNat = 0 :=
    ⟨fun h => by rw [h]; rfl, fun h => BitVec.eq_of_toNat_eq h⟩
  rw [SumFits, hzero, BitVec.toNat_add]
  rcases Nat.lt_or_ge (counter.toNat + max.toNat) (2 ^ 64) with h | h
  · rw [Nat.mod_eq_of_lt h]
    omega
  · rw [Nat.mod_eq_sub_mod h, Nat.mod_eq_of_lt (by omega)]
    omega

namespace Store

variable {s s' : Store} {exported : Option Nat} {n : Nat}

/-! ## Interruption -/

/-- Whatever code starts here is interrupted at its first event after `n` ticks, at the latest. -/
def InterruptedWithin (s : Store) (n : Nat) : Prop :=
  ∀ (exported : Option Nat) (before after : List Event) (e : Event), e.isTick = false →
    n ≤ before.countP Event.isTick → (s.runEvents exported (before ++ e :: after)).1 = true

/-- From the deadline on the next event interrupts. -/
theorem runEvents_expired {e : Event} (he : e.isTick = false) (rest : List Event)
    (h : s.deadline ≤ s.clock.epoch) : s.runEvents exported (e :: rest) = (true, [], s) := by
  cases e with
  | tick => cases he
  | store offset value => exact if_pos h
  | grow size => exact if_pos h
  | host call => exact if_pos h

theorem runEvents_ticks (exported : Option Nat) (rest : List Event) :
    ∀ (n : Nat) (s : Store), ∃ s' : Store, s'.deadline = s.deadline ∧
      s'.clock.epoch = s.clock.epoch + n ∧
        s.runEvents exported (List.replicate n .tick ++ rest) = s'.runEvents exported rest
  | 0, s => ⟨s, rfl, rfl, rfl⟩
  | n + 1, s => by
    obtain ⟨s', hdeadline, hepoch, hrun⟩ := runEvents_ticks exported rest n (s.event exported .tick)
    have hticked : (s.event exported .tick).clock.epoch = s.clock.epoch + 1 := rfl
    exact ⟨s', hdeadline, by omega, hrun⟩

/-- Code is interrupted within `n` ticks exactly when its deadline is at most `n` ticks away. -/
theorem interruptedWithin_iff : s.InterruptedWithin n ↔ s.deadline ≤ s.clock.epoch + n := by
  constructor
  · intro h
    -- code that waits for `n` ticks and then calls the host
    let probe : Event := .host .getCycleTime
    have hticks : n ≤ (List.replicate n Event.tick).countP Event.isTick := by
      rw [List.countP_replicate, if_pos (show Event.tick.isTick = true from rfl)]
    have hprobe := h none (List.replicate n .tick) [] probe rfl hticks
    obtain ⟨s', hdeadline, hepoch, hrun⟩ := runEvents_ticks none [probe] n s
    rw [hrun] at hprobe
    by_contra hlate
    have hlive : ¬ s'.deadline ≤ s'.clock.epoch := by omega
    have hfalse : (s'.runEvents none [probe]).1 = false := by
      show (if s'.deadline ≤ s'.clock.epoch then _ else _ : Bool × List Bool × Store).1 = false
      rw [if_neg hlive]
      rfl
    rw [hfalse] at hprobe
    cases hprobe
  · intro h exported before after e he hticks
    induction before generalizing s n with
    | nil =>
      have hexpired : s.deadline ≤ s.clock.epoch := Nat.le_trans h (by simpa using hticks)
      rw [List.nil_append, runEvents_expired he after hexpired]
    | cons first rest ih =>
      rcases runEvents_cons s exported first (rest ++ e :: after) with
        hrun | hrun
      · rw [List.cons_append, hrun]
      · rw [List.cons_append, hrun]
        have heffect : Effect exported s (s.event exported first) := event_effect first
        -- a tick takes one of the `n`, every other event leaves the deadline as far away
        cases hfirst : first.isTick with
        | false =>
          rw [List.countP_cons_of_neg (by simp [hfirst])] at hticks
          refine ih (n := n) ?_ hticks
          have := heffect.deadline
          have := heffect.epoch
          omega
        | true =>
          cases first with
          | tick =>
            rw [List.countP_cons_of_pos rfl] at hticks
            refine ih (n := n - 1) ?_ (by omega)
            show s.deadline ≤ s.clock.epoch + 1 + (n - 1)
            omega
          | store offset value => cases hfirst
          | grow size => cases hfirst
          | host call => cases hfirst

/-- The ticks that are noted of an execution are what its code has: it is interrupted within `n`
ticks exactly when the entry has at most `n` of them. -/
theorem ticksLeft_entry_le_iff (code : Code) (owner : Nat) (x : Behaviour) :
    (s.entry code owner x).ticksLeft ≤ n ↔ s.InterruptedWithin n := by
  rw [interruptedWithin_iff]
  show s.deadline - s.clock.epoch ≤ n ↔ s.deadline ≤ s.clock.epoch + n
  omega

/-! ## Runs -/

/-- The deadlines of the entries of a log, and the one that stands. -/
structure Timed (max : BitVec 64) (s : Store) : Prop where
  calls : ∀ (e : Execution) (function : Function), .execution e ∈ s.log →
    e.code = .exported function → e.ticksLeft = (e.counter + max).toNat
  bounded : (∀ (e : Execution) (function : Function), .execution e ∈ s.log →
      e.code = .exported function → SumFits e.counter max) →
    s.deadline ≤ s.clock.epoch + max.toNat ∧
      ∀ e, .execution e ∈ s.log → e.ticksLeft ≤ max.toNat

namespace Timed

variable {max : BitVec 64}

theorem mem_log_execute {code : Code} {owner : Nat} {x : Behaviour} {e : Execution} :
    .execution e ∈ (s.execute code owner x).2.log ↔
      .execution e ∈ s.log ∨ e = s.entry code owner x := by
  rw [log_execute, List.mem_append, List.mem_singleton, Entry.execution.injEq]

/-- An execution of start code has what is left of the deadline that stands. -/
theorem start (h : s.Timed max) (owner : Nat) (x : Behaviour) :
    (s.execute .start owner x).2.Timed max := by
  have heffect := s.execute_effect .start owner x
  refine ⟨fun e function hmem hcode => ?_, fun hfits => ?_⟩
  · rcases mem_log_execute.1 hmem with hold | rfl
    · exact h.calls e function hold hcode
    · cases hcode
  · obtain ⟨hdeadline, hticks⟩ := h.bounded fun e function hmem =>
      hfits e function (mem_log_execute.2 (.inl hmem))
    refine ⟨?_, fun e hmem => ?_⟩
    · rw [heffect.deadline]
      exact Nat.le_trans hdeadline (Nat.add_le_add_right heffect.epoch _)
    · rcases mem_log_execute.1 hmem with hold | rfl
      · exact hticks e hold
      · show s.deadline - s.clock.epoch ≤ max.toNat
        omega

/-- A call has the sum of the counter and the ticks of a cycle. -/
theorem call (h : s.Timed max) (fuel : BitVec 64) (function : Function) (owner : Nat)
    (x : Behaviour) : (s.call max fuel function owner x).Timed max := by
  let ready := (s.setEpochDeadline (s.clock.counter + max)).setFuel fuel
  have heffect := ready.execute_effect (.exported function) owner x
  have hleft : (ready.entry (.exported function) owner x).ticksLeft =
      (s.clock.counter + max).toNat := Nat.add_sub_cancel_left _ _
  refine ⟨fun e function' hmem hcode => ?_, fun hfits => ?_⟩
  · rcases mem_log_execute.1 hmem with hold | rfl
    · exact h.calls e function' hold hcode
    · exact hleft
  · obtain ⟨-, hticks⟩ := h.bounded fun e function' hmem =>
      hfits e function' (mem_log_execute.2 (.inl hmem))
    have hsum : (s.clock.counter + max).toNat ≤ max.toNat :=
      (sumFits_iff _ _).2 (hfits _ function (mem_log_execute.2 (.inr rfl)) rfl)
    refine ⟨?_, fun e hmem => ?_⟩
    · have hdeadline := heffect.deadline
      have hepoch := heffect.epoch
      have hset : ready.deadline = ready.clock.epoch + (s.clock.counter + max).toNat := rfl
      show (ready.execute (.exported function) owner x).2.deadline ≤
        (ready.execute (.exported function) owner x).2.clock.epoch + max.toNat
      omega
    · rcases mem_log_execute.1 hmem with hold | rfl
      · exact hticks e hold
      · rw [hleft]
        exact hsum

theorem transition (h : s.Timed max) (step : Transition max s s') : s'.Timed max := by
  cases step with
  | quiet clock deadline log count maxHostCalls =>
    refine ⟨?_, ?_⟩
    · rw [log]
      exact h.calls
    · rw [log, deadline, clock]
      exact h.bounded
  | tick =>
    refine ⟨h.calls, fun hfits => ?_⟩
    obtain ⟨hdeadline, hticks⟩ := h.bounded hfits
    refine ⟨?_, hticks⟩
    show s.deadline ≤ s.clock.epoch + 1 + max.toNat
    omega
  | start owner x => exact h.start owner x
  | call fuel function owner x => exact h.call fuel function owner x
  | advance =>
    have hmem : ∀ e, Entry.execution e ∈ s.advance.log ↔ .execution e ∈ s.log := by
      intro e
      simp [advance]
    refine ⟨fun e function he => h.calls e function ((hmem e).1 he), fun hfits => ?_⟩
    obtain ⟨hdeadline, hticks⟩ := h.bounded fun e function he => hfits e function ((hmem e).2 he)
    exact ⟨hdeadline, fun e he => hticks e ((hmem e).1 he)⟩

end Timed

end Store

namespace WasmtimeHost

theorem timed_new (cycleTimeNs maxEpochsPerCycle fuelPerCycle : BitVec 64) (useFuel : Bool) :
    (WasmtimeHost.new cycleTimeNs maxEpochsPerCycle fuelPerCycle useFuel).store.Timed
      maxEpochsPerCycle where
  calls := fun _ _ h => absurd h List.not_mem_nil
  bounded := fun _ => ⟨Nat.zero_le _, fun _ h => absurd h List.not_mem_nil⟩

/-- In every run, no execution has more ticks than those of a cycle exactly when each `init`, `step`
and `fault` is called with an epoch counter whose sum with them fits. -/
theorem ticksLeft_le_iff (cycleTimeNs maxEpochsPerCycle fuelPerCycle : BitVec 64) (useFuel : Bool)
    (ops : List Op) :
    let log :=
      ((WasmtimeHost.new cycleTimeNs maxEpochsPerCycle fuelPerCycle useFuel).run ops).store.log
    (∀ e, .execution e ∈ log → e.ticksLeft ≤ maxEpochsPerCycle.toNat) ↔
      ∀ (e : Execution) (function : Function), .execution e ∈ log → e.code = .exported function →
        SumFits e.counter maxEpochsPerCycle := by
  intro log
  have htimed := run_invariant (P := Store.Timed maxEpochsPerCycle)
    (fun _ _ step h => h.transition step) (timed_new cycleTimeNs _ fuelPerCycle useFuel) ops
  constructor
  · intro hticks e function hmem hcode
    rw [← sumFits_iff, ← htimed.calls e function hmem hcode]
    exact hticks e hmem
  · exact fun hfits => (htimed.bounded hfits).2

/-- One tick before a step gives the step one tick more than the ticks of a cycle. -/
theorem ticksLeft_le_fails :
    let ops : List Op := [.tick, .step .zero (.returning [])]
    ¬ ∀ e, .execution e ∈ (ready.run ops).store.log →
        e.ticksLeft ≤ ready.maxEpochsPerCycle.toNat := by
  intro ops hticks
  let e : Execution := ⟨.exported .step, 1, 101, 0, []⟩
  have hmem : Entry.execution e ∈ (ready.run ops).store.log := by decide
  exact absurd (hticks e hmem) (by decide)

end WasmtimeHost

end VirtualPlc.Host
