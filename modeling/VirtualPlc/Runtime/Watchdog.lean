import VirtualPlc.Control.Reading
import Mathlib.Data.BitVec

/-!
# The watchdog under interleaving

The atomic steps of the real-time thread in `kick` and `reset`, of the monitor loop, and of the
clock, in any order. `reset` clears the flag before it kicks, and a check of the monitor sets the
flag some steps after it has loaded the last kick: a reset in between is followed by a trigger that
was due before it, and a reset between the swap and its callback lets that callback run late. A run
without such steps keeps what a reset promises (`honest_run`); a run whose checks and resets do not
overlap has none (`undisturbed_of_apart`).
-/

set_option autoImplicit false

namespace VirtualPlc.Runtime.Watchdog

open VirtualPlc.Control

/-- Where the real-time thread is: outside a call, in a `kick` with its clock reading, in a `reset`
that has cleared the flag, and in one that has read the clock for its kick. -/
inductive Caller where
  | idle
  | kicking (now : Nat)
  | cleared
  | rekicking (now : Nat)
deriving DecidableEq, Repr

/-- The flag is cleared and the kick of the reset is still to come. -/
def Caller.resetting : Caller → Bool
  | .cleared | .rekicking _ => true
  | _ => false

/-- Where the monitor is: asleep, with the last kick it has loaded, with a kick that it has found
timed out, and with a callback to run. -/
inductive Monitor where
  | sleeping
  | loaded (last : Nat)
  | timedOut (last : Nat)
  | calling
deriving DecidableEq, Repr

/-- The clock and the two threads. Instants are nanoseconds since the watchdog was created; the
atomics hold their low 64 bits, and no step looks at more. `resets` are the kicks of the resets that
have returned, `callbacks` counts since the flag was cleared last; no step looks at either. -/
structure State where
  clock : Nat
  lastKick : Nat
  triggered : Bool
  caller : Caller
  monitor : Monitor
  resets : List Nat
  callbacks : Nat
deriving DecidableEq, Repr

/-- Atomic steps. -/
inductive Action where
  | advance (d : Nat)
  | kickClock
  | kickStore
  | resetClear
  | resetClock
  | resetStore
  | monitorLoad
  | monitorClock
  | monitorSwap
  | monitorCall
deriving DecidableEq, Repr

/-- `as_nanos() as u64`. -/
def elapsedNs (instant : Nat) : Nat := instant % 2 ^ 64

/-- `is_timed_out` of a kick at `last` when the clock is read at `now`. -/
def isTimedOut (timeout last now : Nat) : Bool :=
  decide (elapsedNs timeout < elapsedNs now - elapsedNs last)

/-- A kick has timed out only if that much time has passed, even where the nanoseconds wrap. -/
theorem lt_of_isTimedOut {timeout last now : Nat} (htimeout : timeout < 2 ^ 64) (hle : last ≤ now)
    (h : isTimedOut timeout last now = true) : timeout < now - last := by
  have hns := of_decide_eq_true h
  rw [elapsedNs, elapsedNs, elapsedNs, Nat.mod_eq_of_lt htimeout] at hns
  omega

namespace State

/-- `has_triggered` is one load. -/
def hasTriggered (s : State) : Bool := s.triggered

/-- A step; one that its thread cannot take leaves the state alone. A reset counts as returned from
its last store on. -/
def step (timeout : Nat) (s : State) : Action → State
  | .advance d => { s with clock := s.clock + d }
  | .kickClock =>
    match s.caller with
    | .idle => { s with caller := .kicking s.clock }
    | _ => s
  | .kickStore =>
    match s.caller with
    | .kicking now => { s with lastKick := now, caller := .idle }
    | _ => s
  | .resetClear =>
    match s.caller with
    | .idle => { s with triggered := false, caller := .cleared, callbacks := 0 }
    | _ => s
  | .resetClock =>
    match s.caller with
    | .cleared => { s with caller := .rekicking s.clock }
    | _ => s
  | .resetStore =>
    match s.caller with
    | .rekicking now => { s with lastKick := now, caller := .idle, resets := s.resets ++ [now] }
    | _ => s
  | .monitorLoad =>
    match s.monitor with
    | .sleeping => { s with monitor := .loaded s.lastKick }
    | _ => s
  | .monitorClock =>
    match s.monitor with
    | .loaded last =>
      { s with monitor := if isTimedOut timeout last s.clock then .timedOut last else .sleeping }
    | _ => s
  | .monitorSwap =>
    match s.monitor with
    | .timedOut _ =>
      { s with monitor := if s.triggered then .sleeping else .calling, triggered := true }
    | _ => s
  | .monitorCall =>
    match s.monitor with
    | .calling => { s with monitor := .sleeping, callbacks := s.callbacks + 1 }
    | _ => s

/-- After `start`, which clears the flag and kicks at `now`. -/
def start (now : Nat) : State := ⟨now, now, false, .idle, .sleeping, [], 0⟩

def run (timeout now : Nat) (actions : List Action) : State :=
  actions.foldl (step timeout) (start now)

/-- What a reset promises: the flag is on only if the timeout has elapsed since every reset that has
returned, and the callback has run at most once since the flag was cleared. -/
structure Honest (timeout : Nat) (s : State) : Prop where
  elapsed : s.hasTriggered = true → ∀ k ∈ s.resets, timeout < s.clock - k
  once : s.callbacks ≤ 1

/-- A swap that would set the flag is of a check whose kick no reset is newer than, and is not
inside a reset; no reset clears the flag while its callback is still to run. -/
def Undisturbed (s : State) : Action → Prop
  | .resetClear => s.monitor ≠ .calling
  | .monitorSwap => ∀ last, s.monitor = .timedOut last → s.triggered = false →
      s.caller.resetting = false ∧ ∀ k ∈ s.resets, k ≤ last
  | _ => True

/-- The instants that the threads hold, and what the flag and the counter say of each other. -/
structure Inv (timeout : Nat) (s : State) : Prop where
  kickPast : s.lastKick ≤ s.clock
  readingPast : ∀ now, s.caller = .kicking now ∨ s.caller = .rekicking now → now ≤ s.clock
  loadedPast : ∀ last, s.monitor = .loaded last → last ≤ s.clock
  timedOut : ∀ last, s.monitor = .timedOut last → timeout < s.clock - last
  elapsed : s.triggered = true → ∀ k ∈ s.resets, timeout < s.clock - k
  resetting : s.caller.resetting = true → s.triggered = false
  calling : s.monitor = .calling → s.triggered = true ∧ s.callbacks = 0
  silent : s.triggered = false → s.callbacks = 0
  once : s.callbacks ≤ 1

variable {timeout : Nat} {s : State}

theorem inv_start (timeout now : Nat) : (start now).Inv timeout where
  kickPast := Nat.le_refl now
  readingPast := by rintro n (h | h) <;> cases h
  loadedPast := by intro last h; cases h
  timedOut := by intro last h; cases h
  elapsed := by intro h; cases h
  resetting := by intro h; cases h
  calling := by intro h; cases h
  silent := fun _ => rfl
  once := Nat.zero_le 1

theorem Inv.advance (h : s.Inv timeout) (d : Nat) : (s.step timeout (.advance d)).Inv timeout where
  kickPast := Nat.le_add_right_of_le h.kickPast
  readingPast now hnow := Nat.le_add_right_of_le (h.readingPast now hnow)
  loadedPast last hlast := Nat.le_add_right_of_le (h.loadedPast last hlast)
  timedOut last hlast := by
    have hnow := h.timedOut last hlast
    show timeout < s.clock + d - last
    omega
  elapsed htriggered k hk := by
    have hnow := h.elapsed htriggered k hk
    show timeout < s.clock + d - k
    omega
  resetting := h.resetting
  calling := h.calling
  silent := h.silent
  once := h.once

/-- The steps of a kick leave the flag and the monitor alone. -/
theorem Inv.kick {lastKick : Nat} {caller : Caller} (h : s.Inv timeout) (hkick : lastKick ≤ s.clock)
    (hreading : ∀ now, caller = .kicking now ∨ caller = .rekicking now → now ≤ s.clock)
    (hresetting : caller.resetting = true → s.triggered = false) :
    ({ s with lastKick := lastKick, caller := caller } : State).Inv timeout :=
  { h with kickPast := hkick, readingPast := hreading, resetting := hresetting }

/-- The flag may be cleared while no callback is to run. -/
theorem Inv.clear (h : s.Inv timeout) (hidle : s.monitor ≠ .calling) :
    ({ s with triggered := false, caller := .cleared, callbacks := 0 } : State).Inv timeout where
  kickPast := h.kickPast
  readingPast := by rintro now (hnow | hnow) <;> cases hnow
  loadedPast := h.loadedPast
  timedOut := h.timedOut
  elapsed := by intro htriggered; cases htriggered
  resetting := fun _ => rfl
  calling hcalling := absurd hcalling hidle
  silent := fun _ => rfl
  once := Nat.zero_le 1

/-- A reset returns with the flag off, so nothing is asked of its kick yet. -/
theorem Inv.returned {now : Nat} (h : s.Inv timeout) (hcaller : s.caller = .rekicking now) :
    ({ s with lastKick := now, caller := .idle, resets := s.resets ++ [now] } : State).Inv
      timeout where
  kickPast := h.readingPast now (.inr hcaller)
  readingPast := by rintro n (hn | hn) <;> cases hn
  loadedPast := h.loadedPast
  timedOut := h.timedOut
  elapsed htriggered := by
    have hoff := h.resetting (by rw [hcaller]; rfl)
    rw [hoff] at htriggered
    cases htriggered
  resetting := by intro hidle; cases hidle
  calling := h.calling
  silent := h.silent
  once := h.once

/-- A swap that finds the flag off sets it for a kick that no reset is newer than. -/
theorem Inv.swap {last : Nat} (h : s.Inv timeout) (hmonitor : s.monitor = .timedOut last)
    (hfresh : s.triggered = false → s.caller.resetting = false ∧ ∀ k ∈ s.resets, k ≤ last) :
    ({ s with monitor := if s.triggered then .sleeping else .calling, triggered := true } :
      State).Inv timeout := by
  have hnow := h.timedOut last hmonitor
  cases htriggered : s.triggered with
  | true =>
    -- an earlier swap has set the flag: the monitor sleeps again, without a call
    refine { h with loadedPast := ?_, timedOut := ?_, elapsed := ?_, resetting := ?_, calling := ?_,
                    silent := ?_ }
    · intro _ hlast; cases hlast
    · intro _ hlast; cases hlast
    · exact fun _ => h.elapsed htriggered
    · exact fun hreset => htriggered.symm.trans (h.resetting hreset)
    · intro hcalling; cases hcalling
    · intro hoff; cases hoff
  | false =>
    obtain ⟨hout, hnewest⟩ := hfresh htriggered
    refine { h with loadedPast := ?_, timedOut := ?_, elapsed := ?_, resetting := ?_, calling := ?_,
                    silent := ?_ }
    · intro _ hlast; cases hlast
    · intro _ hlast; cases hlast
    · intro _ k hk
      -- the kick that timed out is the newest, so every reset is at least as old
      have hle := hnewest k hk
      show timeout < s.clock - k
      omega
    · exact fun hreset => absurd (hout.symm.trans hreset) Bool.false_ne_true
    · exact fun _ => ⟨rfl, h.silent htriggered⟩
    · intro hoff; cases hoff

theorem Inv.step (htimeout : timeout < 2 ^ 64) (h : s.Inv timeout) {a : Action}
    (hundisturbed : s.Undisturbed a) : (s.step timeout a).Inv timeout := by
  cases a with
  | advance d => exact h.advance d
  | kickClock =>
    rw [State.step]
    split
    · exact h.kick h.kickPast (by rintro n (hn | hn) <;> cases hn; exact Nat.le_refl _)
        (by intro hreset; cases hreset)
    · exact h
  | kickStore =>
    rw [State.step]
    split
    next now hcaller =>
      exact h.kick (h.readingPast now (.inl hcaller)) (by rintro n (hn | hn) <;> cases hn)
        (by intro hreset; cases hreset)
    next => exact h
  | resetClear =>
    rw [State.step]
    split
    · exact h.clear hundisturbed
    · exact h
  | resetClock =>
    rw [State.step]
    split
    next hcaller =>
      exact h.kick h.kickPast (by rintro n (hn | hn) <;> cases hn; exact Nat.le_refl _)
        fun _ => h.resetting (by rw [hcaller]; rfl)
    next => exact h
  | resetStore =>
    rw [State.step]
    split
    next now hcaller => exact h.returned hcaller
    next => exact h
  | monitorLoad =>
    rw [State.step]
    split
    · refine { h with loadedPast := ?_, timedOut := ?_, calling := ?_ }
      · rintro last ⟨⟩
        exact h.kickPast
      · intro last hlast; cases hlast
      · intro hcalling; cases hcalling
    · exact h
  | monitorClock =>
    rw [State.step]
    split
    next last hmonitor =>
      have hpast := h.loadedPast last hmonitor
      cases hverdict : isTimedOut timeout last s.clock with
      | true =>
        refine { h with loadedPast := ?_, timedOut := ?_, calling := ?_ }
        · intro _ hlast; cases hlast
        · -- the clock only goes on, so what has timed out stays so until the swap
          rintro _ ⟨⟩
          exact lt_of_isTimedOut htimeout hpast hverdict
        · intro hcalling; cases hcalling
      | false =>
        refine { h with loadedPast := ?_, timedOut := ?_, calling := ?_ }
        · intro _ hlast; cases hlast
        · intro _ hlast; cases hlast
        · intro hcalling; cases hcalling
    next => exact h
  | monitorSwap =>
    rw [State.step]
    split
    next last hmonitor => exact h.swap hmonitor (hundisturbed last hmonitor)
    next => exact h
  | monitorCall =>
    rw [State.step]
    split
    next hmonitor =>
      obtain ⟨hon, hnone⟩ := h.calling hmonitor
      refine { h with loadedPast := ?_, timedOut := ?_, calling := ?_, silent := ?_, once := ?_ }
      · intro _ hlast; cases hlast
      · intro _ hlast; cases hlast
      · intro hcalling; cases hcalling
      · exact fun hoff => absurd (hon.symm.trans hoff) (by decide)
      · -- the swap lets the monitor through once
        show s.callbacks + 1 ≤ 1
        omega
    next => exact h

/-- In a run whose steps no reset disturbs, the flag and the callback keep what each reset promises.
-/
theorem honest_run (htimeout : timeout < 2 ^ 64) {now : Nat} {actions : List Action}
    (h : Passes (State.step timeout) Undisturbed (start now) actions) :
    (run timeout now actions).Honest timeout := by
  have hinv : (run timeout now actions).Inv timeout :=
    h.foldl_inv (inv_start timeout now) fun _ _ hs => hs.step htimeout
  exact ⟨hinv.elapsed, hinv.once⟩

/-- A fault, its callback, a reset and a check that finds the kick of the reset in time. -/
theorem honest_run_after_fault :
    (run 100 0 [.advance 125, .monitorLoad, .monitorClock, .monitorSwap, .monitorCall, .resetClear,
      .resetClock, .resetStore, .advance 25, .monitorLoad, .monitorClock]).Honest 100 := by
  refine honest_run (by decide) ?_
  simp [passes_cons, passes_nil, Undisturbed, start, State.step, isTimedOut, elapsedNs,
    Caller.resetting]

/-- A check that has found a timeout sets the flag after a reset has returned in the same instant.
-/
theorem reset_overtaken :
    ¬ (run 100 0 [.advance 125, .monitorLoad, .monitorClock, .resetClear, .resetClock, .resetStore,
      .monitorSwap]).Honest 100 := by
  intro h
  exact absurd (h.elapsed (by decide) 125 (by decide)) (by decide)

/-- A check between the two stores of a reset finds the old kick, and the reset returns with the
flag on; and a callback that a reset has overtaken runs besides the next one. -/
example :
    (run 100 0 [.advance 125, .resetClear, .monitorLoad, .monitorClock, .monitorSwap, .resetClock,
      .resetStore]).hasTriggered = true ∧
    (run 100 0 [.advance 125, .monitorLoad, .monitorClock, .monitorSwap, .resetClear, .resetClock,
      .resetStore, .monitorCall, .advance 125, .monitorLoad, .monitorClock, .monitorSwap,
      .monitorCall]).callbacks = 2 := by decide

/-- A reset starts only while the monitor sleeps, and a check only outside a reset. -/
def Apart (s : State) : Action → Prop
  | .resetClear => s.monitor = .sleeping
  | .monitorLoad => s.caller.resetting = false
  | _ => True

/-- What the monitor has loaded is no older than any reset. -/
structure Fresh (s : State) : Prop where
  kickPast : s.lastKick ≤ s.clock
  reading : ∀ now, s.caller = .kicking now ∨ s.caller = .rekicking now →
    s.lastKick ≤ now ∧ now ≤ s.clock
  newest : ∀ k ∈ s.resets, k ≤ s.lastKick
  checked : ∀ last, s.monitor = .loaded last ∨ s.monitor = .timedOut last →
    s.caller.resetting = false ∧ ∀ k ∈ s.resets, k ≤ last

theorem fresh_start (now : Nat) : (start now).Fresh where
  kickPast := Nat.le_refl now
  reading := by rintro n (h | h) <;> cases h
  newest := by intro k hk; cases hk
  checked := by rintro last (h | h) <;> cases h

theorem Fresh.step (h : s.Fresh) {a : Action} (hapart : s.Apart a) : (s.step timeout a).Fresh := by
  have hpast := h.kickPast
  cases a with
  | advance d =>
    refine { h with kickPast := Nat.le_add_right_of_le hpast, reading := fun now hnow => ?_ }
    obtain ⟨hlast, hclock⟩ := h.reading now hnow
    exact ⟨hlast, Nat.le_add_right_of_le hclock⟩
  | kickClock =>
    rw [State.step]
    split
    · refine { h with reading := ?_, checked := fun last hlast => ⟨rfl, (h.checked last hlast).2⟩ }
      rintro n (hn | hn) <;> cases hn
      exact ⟨hpast, Nat.le_refl _⟩
    · exact h
  | kickStore =>
    rw [State.step]
    split
    next now hcaller =>
      obtain ⟨hlast, hclock⟩ := h.reading now (.inl hcaller)
      exact { kickPast := hclock
              reading := by rintro n (hn | hn) <;> cases hn
              newest := fun k hk => Nat.le_trans (h.newest k hk) hlast
              checked := fun last hlast => ⟨rfl, (h.checked last hlast).2⟩ }
    next => exact h
  | resetClear =>
    rw [State.step]
    split
    · -- a reset starts only while no check is under way
      refine { h with reading := ?_, checked := ?_ }
      · rintro n (hn | hn) <;> cases hn
      · rintro last (hlast | hlast) <;> cases hapart.symm.trans hlast
    · exact h
  | resetClock =>
    rw [State.step]
    split
    next hcaller =>
      refine { h with reading := ?_, checked := fun last hlast => ?_ }
      · rintro n (hn | hn) <;> cases hn
        exact ⟨hpast, Nat.le_refl _⟩
      · -- no check is under way during a reset
        obtain ⟨hout, -⟩ := h.checked last hlast
        rw [hcaller] at hout
        cases hout
    next => exact h
  | resetStore =>
    rw [State.step]
    split
    next now hcaller =>
      -- the reset counts from the kick that it stores
      obtain ⟨hlast, hclock⟩ := h.reading now (.inr hcaller)
      refine { kickPast := hclock, reading := ?_, newest := ?_, checked := fun last hcheck => ?_ }
      · rintro n (hn | hn) <;> cases hn
      · intro k hk
        rcases List.mem_append.mp hk with hold | hnew
        · exact Nat.le_trans (h.newest k hold) hlast
        · exact Nat.le_of_eq (List.mem_singleton.mp hnew)
      · obtain ⟨hout, -⟩ := h.checked last hcheck
        rw [hcaller] at hout
        cases hout
    next => exact h
  | monitorLoad =>
    rw [State.step]
    split
    · -- a check starts only outside of a reset, and loads the newest kick
      refine { h with checked := ?_ }
      rintro last (hlast | hlast) <;> cases hlast
      exact ⟨hapart, h.newest⟩
    · exact h
  | monitorClock =>
    rw [State.step]
    split
    next last hmonitor =>
      have hchecked := h.checked last (.inl hmonitor)
      cases isTimedOut timeout last s.clock with
      | true =>
        refine { h with checked := ?_ }
        rintro _ (hlast | hlast) <;> cases hlast
        exact hchecked
      | false =>
        refine { h with checked := ?_ }
        rintro _ (hlast | hlast) <;> cases hlast
    next => exact h
  | monitorSwap =>
    rw [State.step]
    split
    · refine { h with checked := ?_ }
      cases s.triggered with
      | true => rintro _ (hlast | hlast) <;> cases hlast
      | false => rintro _ (hlast | hlast) <;> cases hlast
    · exact h
  | monitorCall =>
    rw [State.step]
    split
    · refine { h with checked := ?_ }
      rintro _ (hlast | hlast) <;> cases hlast
    · exact h

/-- Resets and checks that do not overlap disturb nothing. -/
theorem undisturbed_of_apart {now : Nat} {actions : List Action}
    (h : Passes (State.step timeout) Apart (start now) actions) :
    Passes (State.step timeout) Undisturbed (start now) actions := by
  refine h.imp_of_inv (fresh_start now) (fun _ _ hs => hs.step) fun s a hs ha => ?_
  cases a with
  | resetClear =>
    intro hcalling
    cases Eq.trans (Eq.symm ha) hcalling
  | monitorSwap => exact fun last hlast _ => hs.checked last (.inr hlast)
  | _ => trivial

end State

end VirtualPlc.Runtime.Watchdog
