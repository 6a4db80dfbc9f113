import VirtualPlc.Control.OneShot
import VirtualPlc.Stdlib.Delays

/-!
# Runs of the pulse

With a constant preset a pulse timer is a one-shot started by the rising edges of its input. An edge
is relative to the call before it, whether or not that call belonged to a pulse: one that comes
during a pulse, or on the call in which the pulse ends, is lost (`Tp.pulse_law`).
-/

set_option autoImplicit false

namespace VirtualPlc.Stdlib

open VirtualPlc.Word VirtualPlc.Control

variable {pt : Int}

/-- The input comes on with a call after the others. It was off before the first one. -/
def Rises (calls : List Call) (c : Call) : Prop :=
  c.input = true ∧ ∀ last ∈ calls.getLast?, last.input = false

namespace Tp

/-- A new timer after some calls. -/
def run (pt : Int) (calls : List Call) : Tp := calls.foldl (fun t c => t.call (c.scan pt)) .new

theorem run_concat (pt : Int) (calls : List Call) (c : Call) :
    run pt (calls ++ [c]) = (run pt calls).call (c.scan pt) := by
  rw [run, List.foldl_concat]
  rfl

/-- Exact time of the calls of a pulse. -/
def pulseTime (calls : List Call) : Int := total Call.time calls

/-- The call after the others starts a pulse. -/
def StartsPulse (pt : Int) (calls : List Call) (c : Call) : Prop :=
  Starts (max pt 0) Rises Call.time calls c

/-- A pulse is under way after the calls. -/
def Running (pt : Int) (calls : List Call) (time : Int) : Prop :=
  Elapsed (max pt 0) Rises Call.time calls time

variable {calls : List Call} {c : Call} {prevIn : Bool} {time : Int}

/-- Between pulses. -/
def idle (prevIn : Bool) : Tp := ⟨false, 0, prevIn, false⟩

/-- In a pulse. -/
def active (prevIn : Bool) (time : Int) : Tp := ⟨true, time, prevIn, true⟩

/-- What a pulse is after a call of it: over, or that much time old. -/
def aged (pt : Int) (prevIn : Bool) (time : Int) : Tp :=
  if time < max pt 0 then active prevIn time else idle prevIn

theorem call_active (hpt : pt ≤ i64Max) (htime : 0 ≤ time) :
    (active prevIn time).call (c.scan pt) = aged pt c.input (time + c.time) := by
  have hcap : max pt 0 ≤ i64Max := max_le hpt (by decide)
  have hsum : min (i64SaturatingAdd time c.time) (max pt 0) = min (max pt 0) (time + c.time) :=
    min_i64SaturatingAdd (add_nonneg htime c.time_nonneg) hcap
  have hstart : (active prevIn time).startPulse (c.scan pt) = active prevIn time := by
    simp [startPulse, active]
  rw [call, hstart, aged]
  change ({ (if max pt 0 ≤ min (i64SaturatingAdd time c.time) (max pt 0) then idle prevIn
    else active prevIn (min (i64SaturatingAdd time c.time) (max pt 0))) with
      prevIn := c.input } : Tp) = _
  rw [hsum]
  by_cases hlt : time + c.time < max pt 0
  · rw [if_pos hlt, min_eq_right hlt.le, if_neg (not_le.mpr hlt)]
    rfl
  · rw [if_neg hlt, min_eq_left (not_lt.mp hlt), if_pos (le_refl _)]
    rfl

/-- A pulse starts with no time and takes the time of its first call. -/
theorem call_idle_rising (hpt : pt ≤ i64Max) (hin : c.input = true) :
    (idle false).call (c.scan pt) = aged pt c.input c.time := by
  have hstart : (idle false).startPulse (c.scan pt) = (active false 0).startPulse (c.scan pt) := by
    simp [startPulse, idle, active, Call.scan, hin]
  have hcall : (idle false).call (c.scan pt) = (active false 0).call (c.scan pt) := by
    rw [call, hstart]
    rfl
  rw [hcall, call_active hpt (le_refl 0), Int.zero_add]

theorem call_idle (h : (c.input && !prevIn) = false) :
    (idle prevIn).call (c.scan pt) = idle c.input := by
  have hstart : (idle prevIn).startPulse (c.scan pt) = idle prevIn := by
    simp only [startPulse, Call.scan, idle, h]
    rfl
  rw [call, hstart]
  rfl

theorem aged_eq_active_iff {age : Int} :
    aged pt prevIn age = active prevIn time ↔ time < max pt 0 ∧ time = age := by
  rw [aged]
  split
  · next hlt => simp only [active, mk.injEq, true_and, and_true]; omega
  · next hge => simp only [active, idle, mk.injEq, Bool.false_eq_true, false_and, false_iff]; omega

theorem idle_ne_active (prevIn : Bool) (time : Int) : idle prevIn ≠ active prevIn time := by
  simp [idle, active]

/-- The edges that the timer sees are those of the history. -/
theorem rises_iff (pt : Int) (calls : List Call) (c : Call) :
    Rises calls c ↔ (c.input && !(run pt calls).prevIn) = true := by
  rcases List.eq_nil_or_concat' calls with rfl | ⟨before, last, rfl⟩
  · simp [Rises, run, new]
  · have hprev : (run pt (before ++ [last])).prevIn = last.input := by
      rw [run_concat]
      rfl
    simp [Rises, hprev]

/-- Between pulses, or in the pulse that is under way by the history. -/
structure Follows (pt : Int) (calls : List Call) (t : Tp) : Prop where
  running : ∀ time, Running pt calls time ↔ t = active t.prevIn time
  shape : t = idle t.prevIn ∨ ∃ time, 0 ≤ time ∧ t = active t.prevIn time

theorem follows_aged {age : Int} (hage : 0 ≤ age)
    (h : ∀ time, Running pt calls time ↔ time < max pt 0 ∧ time = age) :
    Follows pt calls (aged pt prevIn age) := by
  have hprev : (aged pt prevIn age).prevIn = prevIn := by
    rw [aged]
    split <;> rfl
  refine ⟨fun time => ?_, ?_⟩
  · rw [hprev, aged_eq_active_iff]
    exact h time
  · rw [hprev]
    by_cases hlt : age < max pt 0
    · exact .inr ⟨age, hage, if_pos hlt⟩
    · exact .inl (if_neg hlt)

theorem running_concat (pt : Int) (calls : List Call) (c : Call) (time : Int) :
    Running pt (calls ++ [c]) time ↔ time < max pt 0 ∧
      ((∃ earlier, Running pt calls earlier ∧ time = earlier + c.time) ∨
        StartsPulse pt calls c ∧ time = c.time) :=
  elapsed_concat_iff Call.time_nonneg

theorem follows_run (hpt : pt ≤ i64Max) (calls : List Call) :
    Follows pt calls (run pt calls) := by
  induction calls using List.reverseRecOn with
  | nil => exact ⟨fun time => iff_of_false not_elapsed_nil (idle_ne_active _ _), .inl rfl⟩
  | append_singleton calls c ih =>
    have hrises := rises_iff pt calls c
    have hstarts : StartsPulse pt calls c ↔ Rises calls c ∧ ¬ ∃ time, Running pt calls time :=
      starts_iff
    rw [run_concat]
    rcases ih.shape with hidle | ⟨age, hage, hactive⟩
    · -- no pulse is under way, so an edge starts one
      have hrest : ¬ ∃ time, Running pt calls time := by
        rintro ⟨time, hrunning⟩
        exact idle_ne_active _ _ (hidle.symm.trans ((ih.running time).mp hrunning))
      have hnext : ∀ time, Running pt (calls ++ [c]) time ↔
          time < max pt 0 ∧ Rises calls c ∧ time = c.time := by
        intro time
        have hnone : ¬ ∃ earlier, Running pt calls earlier ∧ time = earlier + c.time :=
          fun ⟨earlier, hrunning, _⟩ => hrest ⟨earlier, hrunning⟩
        rw [running_concat, hstarts, or_iff_right hnone, and_iff_left hrest]
      rw [hrises] at hnext
      rw [hidle]
      cases hedge : c.input && !(run pt calls).prevIn with
      | true =>
        obtain ⟨hin, hprev⟩ := (Bool.and_eq_true _ _).mp hedge
        rw [Bool.not_eq_true'] at hprev
        rw [hprev, call_idle_rising hpt hin]
        apply follows_aged c.time_nonneg
        intro time
        rw [hnext, hedge, and_iff_right rfl]
      | false =>
        rw [call_idle hedge]
        refine ⟨fun time => iff_of_false (fun h => ?_) (idle_ne_active _ _), .inl rfl⟩
        have hrising := ((hnext time).mp h).2.1
        rw [hedge] at hrising
        exact absurd hrising (by decide)
    · -- a pulse is under way, which the call prolongs or ends, and no edge starts one
      have hrunning : Running pt calls age := (ih.running age).mpr hactive
      have hnot : ¬ StartsPulse pt calls c := fun h => (hstarts.mp h).2 ⟨age, hrunning⟩
      rw [hactive, call_active hpt hage]
      apply follows_aged (add_nonneg hage c.time_nonneg)
      intro time
      rw [running_concat, or_iff_left fun h => hnot h.1]
      apply and_congr_right
      intro _
      constructor
      · -- the pulse under way has one age only
        rintro ⟨earlier, hearlier, rfl⟩
        have hsame := ((ih.running earlier).mp hearlier).symm.trans hactive
        rw [active, active, mk.injEq] at hsame
        rw [hsame.2.1]
      · rintro rfl
        exact ⟨age, hrunning, rfl⟩

/-- After any calls of a new timer with a constant preset, an `i64`. A pulse starts on a rising
edge of the input while the output is off. The output is on from then on until the exact time of the
calls of the pulse reaches the preset, whatever their inputs, and the time shown is that time; no
further pulse starts. At all other times the output is off and the time shown is zero. -/
theorem pulse_law (pt : Int) (hpt : pt ≤ i64Max) (calls : List Call) :
    (∀ c, StartsPulse pt calls c ↔ Rises calls c ∧ (run pt calls).q = false) ∧
      ((run pt calls).q = true ↔ ∃ before c during, calls = before ++ c :: during ∧
        StartsPulse pt before c ∧ pulseTime (c :: during) < max pt 0) ∧
      (∀ before c during, calls = before ++ c :: during → StartsPulse pt before c →
        pulseTime (c :: during) < max pt 0 →
          (run pt calls).et = pulseTime (c :: during) ∧ ∀ c', ¬ StartsPulse pt calls c') ∧
      ((run pt calls).q = false → (run pt calls).et = 0) := by
  have hfollows := follows_run hpt calls
  have hq : (run pt calls).q = true ↔ ∃ time, Running pt calls time := by
    rcases hfollows.shape with hidle | ⟨age, -, hactive⟩
    · rw [hidle]
      refine iff_of_false (by simp [idle]) ?_
      rintro ⟨time, hrunning⟩
      exact idle_ne_active _ _ (hidle.symm.trans ((hfollows.running time).mp hrunning))
    · rw [hactive]
      exact iff_of_true rfl ⟨age, (hfollows.running age).mpr hactive⟩
  have hstarts : ∀ c, StartsPulse pt calls c ↔ Rises calls c ∧ (run pt calls).q = false := by
    intro c
    rw [← Bool.not_eq_true, hq]
    exact starts_iff
  refine ⟨hstarts, ?_, ?_, ?_⟩
  · rw [hq]
    constructor
    · rintro ⟨time, before, c, during, hsplit, hpulse, rfl, hlt⟩
      exact ⟨before, c, during, hsplit, hpulse, hlt⟩
    · rintro ⟨before, c, during, hsplit, hpulse, hlt⟩
      exact ⟨_, before, c, during, hsplit, hpulse, rfl, hlt⟩
  · intro before c during hsplit hpulse hlt
    have hrunning : Running pt calls (pulseTime (c :: during)) :=
      ⟨before, c, during, hsplit, hpulse, rfl, hlt⟩
    have hactive := (hfollows.running _).mp hrunning
    refine ⟨by rw [hactive]; rfl, fun c' hagain => ?_⟩
    have hoff := ((hstarts c').mp hagain).2
    rw [hactive] at hoff
    simp [active] at hoff
  · intro hoff
    rcases hfollows.shape with hidle | ⟨age, -, hactive⟩
    · rw [hidle]
      rfl
    · rw [hactive] at hoff
      simp [active] at hoff

/-- The edge of the third call comes as the pulse ends, and starts none. -/
theorem pulse_law_edge_at_end :
    ¬ StartsPulse 1000 [⟨true, 600⟩, ⟨false, 0⟩] ⟨true, 400⟩ ∧
      (run 1000 [⟨true, 600⟩, ⟨false, 0⟩]).et = 600 := by
  have hfirst : StartsPulse 1000 [] ⟨true, 600⟩ := by
    apply ((pulse_law 1000 (by decide) []).1 _).mpr
    exact ⟨⟨rfl, by simp⟩, rfl⟩
  obtain ⟨-, -, hpulse, -⟩ := pulse_law 1000 (by decide) [⟨true, 600⟩, ⟨false, 0⟩]
  obtain ⟨het, hnone⟩ := hpulse [] _ [⟨false, 0⟩] rfl hfirst (by decide)
  exact ⟨hnone _, het⟩

end Tp
end VirtualPlc.Stdlib
