import VirtualPlc.Control.Stopwatch
import VirtualPlc.Stdlib.Timers

/-!
# Runs of the delays

With a constant preset each of the two delays is a stopwatch. The one of an on-delay runs while its
input is on (`Ton.run_law`). The one of an off-delay runs while its input is off, once the input has
been on, which makes the delays dual to each other (`delays_dual`).
-/

set_option autoImplicit false

namespace VirtualPlc.Stdlib

open VirtualPlc.Word VirtualPlc.Control

/-- A call without its preset. -/
structure Call where
  input : Bool
  deltaT : Int
deriving DecidableEq, Repr

namespace Call

def scan (pt : Int) (c : Call) : Scan := ⟨c.input, pt, c.deltaT⟩

/-- The time that a call adds: a clock that went back adds none. -/
def time (c : Call) : Int := max c.deltaT 0

theorem time_nonneg (c : Call) : 0 ≤ c.time := le_max_right _ _

/-- The call of a timer behind an inverter. -/
def inverted (c : Call) : Call := { c with input := !c.input }

end Call

variable {pt : Int}

namespace Ton

/-- A new timer after some calls. -/
def run (pt : Int) (calls : List Call) : Ton := calls.foldl (fun t c => t.call (c.scan pt)) .new

theorem run_concat (pt : Int) (calls : List Call) (c : Call) :
    run pt (calls ++ [c]) = (run pt calls).call (c.scan pt) := by
  rw [run, List.foldl_concat]
  rfl

/-- What a call computes is in range, and is what it would be with unbounded integers. -/
structure Exact (t : Ton) (scan : Scan) : Prop where
  sum : InI64 (i64SaturatingAdd t.et (max scan.deltaT 0))
  elapsed : InI64 (t.call scan).et
  unbounded : min (i64SaturatingAdd t.et (max scan.deltaT 0)) (max scan.pt 0) =
    min (t.et + max scan.deltaT 0) (max scan.pt 0)

/-- Time added by the calls since the input came on, the one with the rising edge among them. -/
def onTime (calls : List Call) : Int := lastRun Call.input Call.time calls

/-- A time within the preset goes on like a stopwatch. -/
theorem et_call {t : Ton} (hpt : pt ≤ i64Max) (ht : 0 ≤ t.et ∧ t.et ≤ max pt 0) (c : Call) :
    (t.call (c.scan pt)).et = tick (max pt 0) Call.input Call.time t.et c := by
  have htime := c.time_nonneg
  rw [tick]
  cases hin : c.input with
  | false => exact et_call_off hin
  | true =>
    have hcap : max pt 0 ≤ i64Max := max_le hpt (by decide)
    rw [et_call_on hin, if_pos rfl]
    split
    · exact min_i64SaturatingAdd (by omega) hcap
    · -- a timer that has expired shows its preset, which no further time changes
      have hexpired : t.et = max pt 0 := le_antisymm ht.2 (not_lt.mp ‹_›)
      rw [hexpired]
      exact (min_eq_left (by omega)).symm

theorem run_et (hpt : pt ≤ i64Max) (calls : List Call) :
    (run pt calls).et = stopwatch (max pt 0) Call.input Call.time calls := by
  induction calls using List.reverseRecOn with
  | nil => rfl
  | append_singleton calls c ih =>
    rw [run_concat, stopwatch_concat, ← ih]
    apply et_call hpt
    rw [ih]
    exact stopwatch_mem (le_max_right pt 0) Call.time_nonneg calls

/-- The output after a call is on if the time shown has reached the preset. -/
theorem run_q (pt : Int) (calls : List Call) (c : Call) :
    (run pt (calls ++ [c])).q = true ↔
      c.input = true ∧ max pt 0 ≤ (run pt (calls ++ [c])).et := by
  rw [run_concat]
  cases hin : c.input with
  | false => simp [call, Call.scan, hin]
  | true => simp [call, Call.scan, hin]

/-- After every call of a new timer with a constant preset, an `i64`: it shows the exact time since
its input came on, up to the preset, and is on if that time has reached the preset. -/
theorem run_law (pt : Int) (hpt : pt ≤ i64Max) (calls : List Call) (c : Call) :
    (run pt (calls ++ [c])).et = min (max pt 0) (onTime (calls ++ [c])) ∧
      ((run pt (calls ++ [c])).q = true ↔
        c.input = true ∧ max pt 0 ≤ onTime (calls ++ [c])) ∧
      (run pt calls).Exact (c.scan pt) := by
  have hpreset : 0 ≤ max pt 0 := le_max_right pt 0
  have hcap : max pt 0 ≤ i64Max := max_le hpt (by decide)
  have hmem := stopwatch_mem hpreset Call.time_nonneg (p := Call.input)
  have het : (run pt (calls ++ [c])).et = min (max pt 0) (onTime (calls ++ [c])) := by
    rw [run_et hpt, stopwatch_eq hpreset Call.time_nonneg]
    rfl
  refine ⟨het, ?_, ?_⟩
  · have hreached : max pt 0 ≤ (run pt (calls ++ [c])).et ↔ max pt 0 ≤ onTime (calls ++ [c]) := by
      rw [het, le_min_iff]
      exact and_iff_right (le_refl _)
    rw [← hreached]
    exact run_q pt calls c
  · refine ⟨inI64_i64SaturatingAdd _ _, ?_, ?_⟩
    · have hlast := hmem (calls ++ [c])
      rw [← run_et hpt, run_concat] at hlast
      exact ⟨le_trans (by decide) hlast.1, hlast.2.trans hcap⟩
    · have hbefore := (hmem calls).1
      rw [← run_et hpt] at hbefore
      have hsum := add_nonneg hbefore c.time_nonneg
      exact (min_i64SaturatingAdd hsum hcap).trans (min_comm _ _)

/-- The second call reaches the preset and passes it. -/
theorem run_law_expired :
    (run 1000 [⟨true, 600⟩, ⟨true, 700⟩]).et = 1000 ∧
      (run 1000 [⟨true, 600⟩, ⟨true, 700⟩]).q = true := by
  obtain ⟨het, hq, -⟩ := run_law 1000 (by decide) [⟨true, 600⟩] ⟨true, 700⟩
  exact ⟨het, hq.mpr ⟨rfl, by decide⟩⟩

end Ton

namespace Tof

/-- A new timer after some calls. -/
def run (pt : Int) (calls : List Call) : Tof := calls.foldl (fun t c => t.call (c.scan pt)) .new

theorem run_concat (pt : Int) (calls : List Call) (c : Call) :
    run pt (calls ++ [c]) = (run pt calls).call (c.scan pt) := by
  rw [run, List.foldl_concat]
  rfl

variable {t : Tof} {c : Call}

/-- The falling edge: the first time is taken over. -/
theorem call_edge (hoff : c.input = false) (hprev : t.prevIn = true) :
    t.call (c.scan pt) =
      ⟨decide (min c.time (max pt 0) < max pt 0), min c.time (max pt 0), false, true⟩ := by
  simp [call, Call.scan, Call.time, hoff, hprev]

/-- A timer that runs stops with its output at the preset. -/
theorem call_running (hoff : c.input = false) (hprev : t.prevIn = false) (hrun : t.running = true) :
    t.call (c.scan pt) =
      let et := min (i64SaturatingAdd t.et c.time) (max pt 0)
      ⟨t.q && decide (et < max pt 0), et, false, decide (et < max pt 0)⟩ := by
  simp only [call, Call.scan, Call.time, hoff, hprev, hrun, Bool.false_eq_true, if_false,
    Bool.false_and, if_true]
  split
  · next h => simp [not_lt.mpr h]
  · next h => simp [not_le.mp h]

/-- A timer at rest does nothing. -/
theorem call_rest (hoff : c.input = false) (hprev : t.prevIn = false) (hrun : t.running = false) :
    t.call (c.scan pt) = t := by
  obtain ⟨q, et, prevIn, running⟩ := t
  subst hprev hrun
  simp [call, Call.scan, hoff]

/-- The timer has seen its input on and shows a time. It is at rest only with its preset. -/
structure Timing (cap time : Int) (t : Tof) : Prop where
  et : t.et = time
  mem : 0 ≤ time ∧ time ≤ cap
  q : t.q = true ↔ t.prevIn = true ∨ time < cap
  edge : t.prevIn = true → time = 0
  rest : t.prevIn = false → t.running = false → time = cap

/-- The input on: whatever the timer did before, it is ready to time. -/
theorem timing_call_on (t : Tof) (hon : c.input = true) :
    (t.call (c.scan pt)).Timing (max pt 0) 0 := by
  have hcall : t.call (c.scan pt) = ⟨true, 0, true, false⟩ := by
    simp [call, Call.scan, hon]
  rw [hcall]
  refine ⟨rfl, ⟨le_refl 0, le_max_right pt 0⟩, ?_, fun _ => rfl, fun hprev => ?_⟩
  · exact iff_of_true rfl (.inl rfl)
  · exact absurd hprev (by decide)

/-- The input off: the time goes on, from the falling edge until the preset is reached. -/
theorem Timing.call_off {time : Int} (h : t.Timing (max pt 0) time) (hpt : pt ≤ i64Max)
    (hoff : c.input = false) :
    (t.call (c.scan pt)).Timing (max pt 0) (min (max pt 0) (time + c.time)) := by
  have htime := c.time_nonneg
  have hcap : max pt 0 ≤ i64Max := max_le hpt (by decide)
  obtain ⟨hnonneg, hle⟩ := h.mem
  have hmem : 0 ≤ min (max pt 0) (time + c.time) ∧ min (max pt 0) (time + c.time) ≤ max pt 0 := by
    omega
  cases hprev : t.prevIn with
  | true =>
    have het : min c.time (max pt 0) = min (max pt 0) (time + c.time) := by
      -- on a falling edge the time starts from zero
      rw [h.edge hprev, Int.zero_add, min_comm]
    rw [call_edge hoff hprev, het]
    exact ⟨rfl, hmem, by simp, by simp, by simp⟩
  | false =>
    cases hrun : t.running with
    | true =>
      have het : min (i64SaturatingAdd t.et c.time) (max pt 0) =
          min (max pt 0) (time + c.time) := by
        rw [h.et]
        exact min_i64SaturatingAdd (add_nonneg hnonneg htime) hcap
      rw [call_running hoff hprev hrun, het]
      refine ⟨rfl, hmem, ?_, ?_, ?_⟩
      · have hq := h.q
        rw [hprev] at hq
        simp only [Bool.and_eq_true, decide_eq_true_eq, hq, Bool.false_eq_true, false_or]
        omega
      · simp
      · intro _ hstopped
        have hnot := of_decide_eq_false hstopped
        omega
    | false =>
      -- the preset has been reached, and the time stays there
      have hexpired := h.rest hprev hrun
      have hstay : min (max pt 0) (time + c.time) = time := by omega
      rw [call_rest hoff hprev hrun, hstay]
      exact h

theorem prevIn_call (t : Tof) (scan : Scan) : (t.call scan).prevIn = scan.input := rfl

/-- From the first call with the input on, the timer is the stopwatch of the input off. -/
theorem timing_run (hpt : pt ≤ i64Max) {calls : List Call} (h : ∃ c ∈ calls, c.input = true) :
    (run pt calls).Timing (max pt 0)
      (stopwatch (max pt 0) (fun c => !c.input) Call.time calls) := by
  induction calls using List.reverseRecOn with
  | nil =>
    obtain ⟨c, hmem, -⟩ := h
    exact absurd hmem List.not_mem_nil
  | append_singleton calls c ih =>
    rw [run_concat, stopwatch_concat, tick]
    cases hin : c.input with
    | true => exact timing_call_on _ hin
    | false =>
      have hseen : ∃ c ∈ calls, c.input = true := by
        obtain ⟨c', hmem, hon⟩ := h
        rcases List.mem_append.mp hmem with hbefore | hlast
        · exact ⟨c', hbefore, hon⟩
        · rw [List.mem_singleton.mp hlast, hin] at hon
          exact absurd hon (by decide)
      exact (ih hseen).call_off hpt hin

end Tof

/-- With the same constant preset, an `i64`, and the same times, an off-delay shows from the first
call with its input on what an on-delay behind an inverter shows, with the output inverted. -/
theorem delays_dual (pt : Int) (hpt : pt ≤ i64Max) (calls : List Call)
    (h : ∃ c ∈ calls, c.input = true) :
    (Tof.run pt calls).q = !(Ton.run pt (calls.map Call.inverted)).q ∧
      (Tof.run pt calls).et = (Ton.run pt (calls.map Call.inverted)).et := by
  have hoff := Tof.timing_run hpt h
  -- both are the stopwatch of the calls with the input of the off-delay off
  have hon : (Ton.run pt (calls.map Call.inverted)).et =
      stopwatch (max pt 0) (fun c => !c.input) Call.time calls := by
    rw [Ton.run_et hpt, stopwatch_map]
    rfl
  refine ⟨?_, hoff.et.trans hon.symm⟩
  rcases List.eq_nil_or_concat' calls with rfl | ⟨before, c, rfl⟩
  · obtain ⟨c, hmem, -⟩ := h
    exact absurd hmem List.not_mem_nil
  · have hq := hoff.q
    have hq' := Ton.run_q pt (before.map Call.inverted) c.inverted
    rw [Tof.run_concat, Tof.prevIn_call, ← Tof.run_concat] at hq
    rw [List.map_append, List.map_singleton] at hon ⊢
    rw [hon] at hq'
    have hnot : c.inverted.input = true ↔ ¬ c.input = true := by
      simp [Call.inverted]
    rw [hnot] at hq'
    apply Bool.eq_iff_iff.mpr
    rw [hq, Bool.not_eq_true', Bool.eq_false_iff, ne_eq, hq', not_and_or, not_not, not_le]
    rfl

/-- A pulse of the input, and the preset of a second after it. -/
theorem delays_dual_pulse :
    let calls : List Call := [⟨true, 0⟩, ⟨false, 400⟩, ⟨false, 600⟩]
    (Tof.run 1000 calls).q = !(Ton.run 1000 (calls.map Call.inverted)).q ∧
      (Tof.run 1000 calls).et = (Ton.run 1000 (calls.map Call.inverted)).et :=
  delays_dual 1000 (by decide) _ ⟨⟨true, 0⟩, List.mem_cons_self, rfl⟩

end VirtualPlc.Stdlib
