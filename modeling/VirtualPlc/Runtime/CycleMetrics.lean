import VirtualPlc.Control.Extremes
import VirtualPlc.Fieldbus.DcSync
import VirtualPlc.Runtime.FaultRecorder

/-!
# Cycle metrics

A ring of the last cycle times and statistics of all of them, in nanoseconds. The statistics are
those of the times recorded as long as the number of cycles fits in its counter and the deadline has
not been cut to its low 64 bits (`CycleMetrics.statistics_iff`).
-/

set_option autoImplicit false

namespace VirtualPlc.Runtime

open VirtualPlc.Buffer VirtualPlc.Control VirtualPlc.Word
open VirtualPlc.Fieldbus (Duration)

/-- Largest `u64`. -/
def u64Max : Nat := 2 ^ 64 - 1

/-- Metrics with a ring of `n` samples, which is not larger than a slice can be. The other fields
but the positions are `u64` values. -/
structure CycleMetrics (n : Nat) where
  samples : Vector Nat n
  writePos : Fin n
  sampleCount : Nat
  totalCycles : Nat
  minNs : Nat
  maxNs : Nat
  sumNs : Nat
  overrunCount : Nat
  deadlineNs : Nat
  allocated : n * 8 ≤ isizeMax

/-- A call of `record` or of `record_ns`. -/
inductive RecordCall where
  | record (duration : Duration)
  | recordNs (ns : BitVec 64)
deriving DecidableEq, Repr

/-- The time of a call in nanoseconds. -/
def RecordCall.ns : RecordCall → Nat
  | record duration => duration.ns
  | recordNs ns => ns.toNat

namespace CycleMetrics

theorem ringSize_pos (histogramSize : Nat) : 0 < max histogramSize 1 :=
  Nat.lt_of_lt_of_le Nat.zero_lt_one (Nat.le_max_right histogramSize 1)

/-- New metrics. The allocation panics where the samples do not fit into a slice. -/
def new (histogramSize : Nat) (cycleDeadline : Duration) :
    Option (CycleMetrics (max histogramSize 1)) :=
  if h : max histogramSize 1 * 8 ≤ isizeMax then
    some
      { samples := Vector.replicate _ 0
        writePos := ⟨0, ringSize_pos histogramSize⟩
        sampleCount := 0
        totalCycles := 0
        minNs := u64Max
        maxNs := 0
        sumNs := 0
        overrunCount := 0
        deadlineNs := cycleDeadline.ns % 2 ^ 64
        allocated := h }
  else none

/-- Samples that fit can be allocated. -/
theorem exists_new (histogramSize : Nat) (cycleDeadline : Duration)
    (h : max histogramSize 1 * 8 ≤ isizeMax) : ∃ m, new histogramSize cycleDeadline = some m := by
  rw [new, dif_pos h]
  exact ⟨_, rfl⟩

variable {n : Nat}

theorem size_pos (m : CycleMetrics n) : 0 < n := Nat.zero_lt_of_lt m.writePos.isLt

/-- The position after this one. -/
def nextPos (m : CycleMetrics n) : Fin n := ⟨(m.writePos.val + 1) % n, Nat.mod_lt _ m.size_pos⟩

/-- The count of overruns after a cycle time. -/
def countOverrun (b : Build) (m : CycleMetrics n) (ns : Nat) : Except Failure Nat :=
  if m.deadlineNs < ns then u64Add b m.overrunCount 1 else .ok m.overrunCount

/-- Records a cycle time in nanoseconds. -/
def recordNs (b : Build) (m : CycleMetrics n) (ns : Nat) : Except Failure (CycleMetrics n) := do
  let totalCycles ← u64Add b m.totalCycles 1
  let overrunCount ← m.countOverrun b ns
  return { m with
    samples := m.samples.set m.writePos.val ns m.writePos.isLt
    writePos := m.nextPos
    sampleCount := min (min (m.sampleCount + 1) usizeMax) n
    totalCycles := totalCycles
    minNs := min m.minNs ns
    maxNs := max m.maxNs ns
    sumNs := (m.sumNs + ns) % 2 ^ 64
    overrunCount := overrunCount }

/-- Records a cycle time, of which `as u64` keeps the low 64 bits. -/
def record (b : Build) (m : CycleMetrics n) (duration : Duration) :
    Except Failure (CycleMetrics n) :=
  m.recordNs b (duration.ns % 2 ^ 64)

/-- The least cycle time in nanoseconds. -/
protected def min (m : CycleMetrics n) : Option Nat :=
  if 0 < m.totalCycles then some m.minNs else none

/-- The greatest cycle time in nanoseconds. -/
protected def max (m : CycleMetrics n) : Option Nat :=
  if 0 < m.totalCycles then some m.maxNs else none

/-- The mean cycle time in nanoseconds. -/
def mean (m : CycleMetrics n) : Option Nat :=
  if 0 < m.totalCycles then some (m.sumNs / m.totalCycles) else none

/-- The samples in use, `samples[..sample_count]`. -/
def window (m : CycleMetrics n) : List Nat := m.samples.toList.take m.sampleCount

/-- One call. -/
def apply (b : Build) (m : CycleMetrics n) : RecordCall → Except Failure (CycleMetrics n)
  | .record duration => m.record b duration
  | .recordNs ns => m.recordNs b ns.toNat

/-- Calls in a row. -/
def run (b : Build) (m : CycleMetrics n) (calls : List RecordCall) :
    Except Failure (CycleMetrics n) :=
  calls.foldlM (apply b) m

/-- Both entry points do the same for a time that fits in a `u64`. -/
theorem record_eq_recordNs (b : Build) (m : CycleMetrics n) {duration : Duration}
    (h : duration.ns < 2 ^ 64) : m.record b duration = m.recordNs b duration.ns := by
  rw [record, Nat.mod_eq_of_lt h]

theorem apply_eq_recordNs (b : Build) (m : CycleMetrics n) {call : RecordCall}
    (h : call.ns < 2 ^ 64) : m.apply b call = m.recordNs b call.ns := by
  cases call with
  | record duration => exact record_eq_recordNs b m h
  | recordNs ns => rfl

theorem run_concat (b : Build) (m : CycleMetrics n) (calls : List RecordCall) (call : RecordCall) :
    m.run b (calls ++ [call]) = m.run b calls >>= fun m' => m'.apply b call :=
  foldlM_concat _ _ _ _

/-- The metrics keep what the times recorded say, against the deadline as it was cut. -/
structure Follows (m : CycleMetrics n) (deadline : Duration) (times : List Nat) : Prop where
  holds : Holds m.samples m.size_pos times
  writePos : m.writePos.val = times.length % n
  sampleCount : m.sampleCount = min times.length n
  totalCycles : m.totalCycles = times.length % 2 ^ 64
  minNs : m.minNs = times.foldl min u64Max
  maxNs : m.maxNs = times.foldl max 0
  sumNs : m.sumNs = times.sum
  overrunCount : m.overrunCount = times.countP fun t => decide (m.deadlineNs < t)
  deadlineNs : m.deadlineNs = deadline.ns % 2 ^ 64

theorem follows_new {histogramSize : Nat} {deadline : Duration}
    {m : CycleMetrics (max histogramSize 1)} (h : new histogramSize deadline = some m) :
    m.Follows deadline [] := by
  rw [new] at h
  split at h
  · cases h
    exact ⟨.nil _ _, (Nat.zero_mod _).symm, (Nat.zero_min _).symm, rfl, rfl, rfl, rfl, rfl, rfl⟩
  · cases h

variable {b : Build} {m m' : CycleMetrics n} {deadline : Duration} {times : List Nat} {time : Nat}

/-- An overrun took some time, so there are not more of them than fit in the sum. -/
theorem Follows.overrunCount_le (h : m.Follows deadline times) : m.overrunCount ≤ times.sum := by
  rw [h.overrunCount]
  apply countP_le_sum
  intro t ht
  exact Nat.zero_lt_of_lt (of_decide_eq_true ht)

theorem Follows.overruns_concat (h : m.Follows deadline times) (time : Nat) :
    (times ++ [time]).countP (fun t => decide (m.deadlineNs < t)) =
      if m.deadlineNs < time then m.overrunCount + 1 else m.overrunCount := by
  rw [List.countP_append, List.countP_singleton, ← h.overrunCount]
  split <;> simp_all

/-- The count of overruns does not overflow. -/
theorem Follows.recordNs_eq (h : m.Follows deadline times) (hsum : (times ++ [time]).sum < 2 ^ 64) :
    m.recordNs b time = (u64Add b m.totalCycles 1).map fun totalCycles =>
      { m with
        samples := m.samples.set m.writePos.val time m.writePos.isLt
        writePos := m.nextPos
        sampleCount := min (min (m.sampleCount + 1) usizeMax) n
        totalCycles := totalCycles
        minNs := min m.minNs time
        maxNs := max m.maxNs time
        sumNs := (times ++ [time]).sum
        overrunCount := (times ++ [time]).countP fun t => decide (m.deadlineNs < t) } := by
  have hle := h.overrunCount_le
  rw [List.sum_append, List.sum_singleton] at hsum
  have hcount : m.countOverrun b time =
      .ok ((times ++ [time]).countP fun t => decide (m.deadlineNs < t)) := by
    rw [h.overruns_concat, countOverrun]
    split
    · apply Build.result_of_inRange
      omega
    · rfl
  have hwrap : (m.sumNs + time) % 2 ^ 64 = (times ++ [time]).sum := by
    rw [h.sumNs, List.sum_append, List.sum_singleton, Nat.mod_eq_of_lt hsum]
  rw [recordNs, hcount, hwrap]
  cases u64Add b m.totalCycles 1 <;> rfl

theorem Follows.recordNs (h : m.Follows deadline times) (hsum : (times ++ [time]).sum < 2 ^ 64)
    (hok : m.recordNs b time = .ok m') : m'.Follows deadline (times ++ [time]) := by
  have hlength : (times ++ [time]).length = times.length + 1 := by simp
  have hallocated := m.allocated
  rw [h.recordNs_eq hsum, map_eq_ok] at hok
  obtain ⟨totalCycles, hadd, rfl⟩ := hok
  have htotal := u64Add_ok hadd
  constructor
  · have hpush := h.holds.push time
    simp only [← h.writePos] at hpush
    exact hpush
  · change (m.writePos.val + 1) % n = _
    rw [h.writePos, hlength, Nat.mod_add_mod]
  · -- a ring that has been allocated is far smaller than `usize::MAX`
    change min (min (m.sampleCount + 1) usizeMax) n = _
    rw [h.sampleCount, hlength]
    rw [isizeMax] at hallocated
    rw [usizeMax]
    omega
  · change totalCycles = _
    rw [htotal, h.totalCycles, hlength, Nat.mod_add_mod]
  · rw [List.foldl_concat, ← h.minNs]
  · rw [List.foldl_concat, ← h.maxNs]
  · rfl
  · rfl
  · exact h.deadlineNs

/-- Only the count of cycles can stop a debug build. -/
theorem Follows.recordNs_returns_iff (h : m.Follows deadline times)
    (hsum : (times ++ [time]).sum < 2 ^ 64) :
    (∃ m', m.recordNs b time = .ok m') ↔ (b = .debug → times.length % 2 ^ 64 + 1 < 2 ^ 64) := by
  rw [h.recordNs_eq hsum, ← h.totalCycles, ← u64Add_returns_iff]
  constructor
  · rintro ⟨m', hok⟩
    obtain ⟨totalCycles, hadd, -⟩ := map_eq_ok.mp hok
    exact ⟨totalCycles, hadd⟩
  · rintro ⟨totalCycles, hadd⟩
    exact ⟨_, map_eq_ok.mpr ⟨totalCycles, hadd, rfl⟩⟩

/-- The times of some calls and of one more, which all fit. -/
theorem sum_concat_lt {calls : List RecordCall} {call : RecordCall}
    (h : ((calls ++ [call]).map RecordCall.ns).sum < 2 ^ 64) :
    (calls.map RecordCall.ns).sum < 2 ^ 64 ∧ call.ns < 2 ^ 64 ∧
      (calls.map RecordCall.ns ++ [call.ns]).sum < 2 ^ 64 := by
  rw [List.map_append, List.map_singleton] at h
  refine ⟨?_, ?_, h⟩
  · rw [List.sum_append] at h
    omega
  · rw [List.sum_append, List.sum_singleton] at h
    omega

theorem Follows.run (h : m.Follows deadline []) {calls : List RecordCall}
    (hsum : (calls.map RecordCall.ns).sum < 2 ^ 64) (hok : m.run b calls = .ok m') :
    m'.Follows deadline (calls.map RecordCall.ns) := by
  induction calls using List.reverseRecOn generalizing m' with
  | nil =>
    cases hok
    exact h
  | append_singleton calls call ih =>
    obtain ⟨hbefore, hcall, hboth⟩ := sum_concat_lt hsum
    rw [run_concat] at hok
    obtain ⟨m₁, hrun, hlast⟩ := bind_eq_ok.mp hok
    rw [apply_eq_recordNs b m₁ hcall] at hlast
    rw [List.map_append, List.map_singleton]
    exact (ih hbefore hrun).recordNs hboth hlast

theorem Follows.run_returns_iff (h : m.Follows deadline []) {calls : List RecordCall}
    (hsum : (calls.map RecordCall.ns).sum < 2 ^ 64) :
    (∃ m', m.run b calls = .ok m') ↔ (b = .debug → calls.length < 2 ^ 64) := by
  induction calls using List.reverseRecOn with
  | nil => exact iff_of_true ⟨m, rfl⟩ fun _ => by decide
  | append_singleton calls call ih =>
    obtain ⟨hbefore, hcall, hboth⟩ := sum_concat_lt hsum
    have hnext : ∀ {m₁ : CycleMetrics n}, m.run b calls = .ok m₁ →
        ((∃ m', m₁.apply b call = .ok m') ↔
          (b = .debug → calls.length % 2 ^ 64 + 1 < 2 ^ 64)) := by
      intro m₁ hrun
      have hfollows := (h.run hbefore hrun).recordNs_returns_iff (b := b) hboth
      rw [List.length_map] at hfollows
      rw [apply_eq_recordNs b m₁ hcall]
      exact hfollows
    rw [run_concat, List.length_append, List.length_singleton]
    constructor
    · -- the counter has not wrapped before, so the last increment bounds the length
      rintro ⟨m', hok⟩ hdebug
      obtain ⟨m₁, hrun, hlast⟩ := bind_eq_ok.mp hok
      have hlength := (ih hbefore).mp ⟨m₁, hrun⟩ hdebug
      have hlast := (hnext hrun).mp ⟨m', hlast⟩ hdebug
      rwa [Nat.mod_eq_of_lt hlength] at hlast
    · intro hlength
      obtain ⟨m₁, hrun⟩ := (ih hbefore).mpr fun hdebug => Nat.lt_of_succ_lt (hlength hdebug)
      obtain ⟨m', hlast⟩ := (hnext hrun).mpr fun hdebug => by
        have hlt := hlength hdebug
        rw [Nat.mod_eq_of_lt (Nat.lt_of_succ_lt hlt)]
        exact hlt
      exact ⟨m', bind_eq_ok.mpr ⟨m₁, hrun, hlast⟩⟩

/-- What the metrics show is the truth about the times recorded: the samples in use are the last
ones, oldest first from the position that is written next; the overruns are the times above the
deadline; the extremes are those of all times and the mean is their average. -/
structure Accurate (m : CycleMetrics n) (deadline : Duration) (times : List Nat) : Prop where
  window : m.window.rotate m.writePos = lastElements (min times.length n) times
  overruns : m.overrunCount = times.countP fun t => decide (deadline.ns < t)
  extremes : times ≠ [] → ∃ least average greatest,
    m.min = some least ∧ m.mean = some average ∧ m.max = some greatest ∧
      IsLeast {t | t ∈ times} least ∧ IsGreatest {t | t ∈ times} greatest ∧
      average = times.sum / times.length ∧ least ≤ average ∧ average ≤ greatest

/-- The number of cycles fits in its counter. In a release build it does no harm that the counter
wraps if the mean is below one before and after. -/
def Countable (b : Build) (times : List Nat) : Prop :=
  times.length < 2 ^ 64 ∨ b = .release ∧ times.sum < times.length % 2 ^ 64

/-- The deadline has not been cut, or no time is above what is left of it. -/
def DeadlineFits (deadline : Duration) (times : List Nat) : Prop :=
  deadline.ns < 2 ^ 64 ∨ ∀ t ∈ times, t ≤ deadline.ns % 2 ^ 64

/-- The statistics are there if the counter is not zero, and then only the mean depends on it. -/
theorem Follows.shown (h : m.Follows deadline times) (hcycles : 0 < times.length % 2 ^ 64) :
    m.min = some (times.foldl min u64Max) ∧ m.max = some (times.foldl max 0) ∧
      m.mean = some (times.sum / (times.length % 2 ^ 64)) := by
  rw [CycleMetrics.min, CycleMetrics.max, mean, h.totalCycles, h.minNs, h.maxNs, h.sumNs]
  simp only [hcycles, if_true, and_self]

theorem Countable.mean_eq (h : Countable b times) (hne : times ≠ [])
    (hsum : times.sum < 2 ^ 64) :
    0 < times.length % 2 ^ 64 ∧
      times.sum / (times.length % 2 ^ 64) = times.sum / times.length := by
  have hpos := List.length_pos_iff.mpr hne
  rcases Nat.lt_or_ge times.length (2 ^ 64) with hlt | hge
  · rw [Nat.mod_eq_of_lt hlt]
    exact ⟨hpos, rfl⟩
  · rcases h with hlt | ⟨-, hlow⟩
    · exact absurd hlt (Nat.not_lt.mpr hge)
    · -- both means are zero
      rw [Nat.div_eq_of_lt hlow, Nat.div_eq_of_lt (Nat.lt_of_lt_of_le hsum hge)]
      exact ⟨Nat.zero_lt_of_lt hlow, rfl⟩

theorem DeadlineFits.overruns_eq (h : DeadlineFits deadline times) :
    (times.countP fun t => decide (deadline.ns % 2 ^ 64 < t)) =
      times.countP fun t => decide (deadline.ns < t) := by
  rcases h with hlt | hle
  · rw [Nat.mod_eq_of_lt hlt]
  · apply List.countP_congr
    intro t ht
    have hmod := Nat.mod_le deadline.ns (2 ^ 64)
    have hlow := hle t ht
    simp only [decide_eq_true_eq]
    omega

/-- No time is above a deadline that does not fit, so none may be above what is left of it. -/
theorem deadlineFits_of_overruns_eq (hsum : times.sum < 2 ^ 64)
    (h : (times.countP fun t => decide (deadline.ns % 2 ^ 64 < t)) =
      times.countP fun t => decide (deadline.ns < t)) :
    DeadlineFits deadline times := by
  rcases Nat.lt_or_ge deadline.ns (2 ^ 64) with hlt | hge
  · exact .inl hlt
  · right
    -- a time is at most the sum, which is below the deadline
    have hnone : (times.countP fun t => decide (deadline.ns < t)) = 0 := by
      rw [List.countP_eq_zero]
      intro t ht
      have hle := List.le_sum_of_mem ht
      simp only [decide_eq_true_eq]
      omega
    rw [hnone, List.countP_eq_zero] at h
    intro t ht
    exact Nat.not_lt.mp fun hlt => h t ht (decide_eq_true hlt)

theorem Follows.accurate (h : m.Follows deadline times) (hsum : times.sum < 2 ^ 64)
    (hcount : Countable b times) (hdeadline : DeadlineFits deadline times) :
    m.Accurate deadline times := by
  refine ⟨?_, ?_, fun hne => ?_⟩
  · rw [window, h.sampleCount, h.writePos]
    exact h.holds.rotate_eq
  · rw [h.overrunCount, h.deadlineNs]
    exact hdeadline.overruns_eq
  · obtain ⟨hcycles, hmean⟩ := hcount.mean_eq hne hsum
    obtain ⟨hmin, hmax, haverage⟩ := h.shown hcycles
    have hleast : IsLeast {t | t ∈ times} (times.foldl min u64Max) := by
      apply isLeast_foldl_min hne
      intro t ht
      have hle := List.le_sum_of_mem ht
      rw [u64Max]
      omega
    have hgreatest : IsGreatest {t | t ∈ times} (times.foldl max 0) :=
      isGreatest_foldl_max hne fun t _ => Nat.zero_le t
    rw [hmean] at haverage
    exact ⟨_, _, _, hmin, haverage, hmax, hleast, hgreatest, rfl,
      average_mem hne hleast hgreatest⟩

/-- A mean that is right says that the counter has not wrapped, or that both means are zero. -/
theorem Follows.countable (h : m.Follows deadline times) (hsum : times.sum < 2 ^ 64)
    (hreturned : b = .debug → times.length < 2 ^ 64) (haccurate : m.Accurate deadline times) :
    Countable b times := by
  rcases Nat.lt_or_ge times.length (2 ^ 64) with hlt | hge
  · exact .inl hlt
  · have hrelease : b = .release := by
      cases b with
      | debug => exact absurd (hreturned rfl) (Nat.not_lt.mpr hge)
      | release => rfl
    have hne : times ≠ [] := by
      rintro rfl
      exact absurd hge (by decide)
    obtain ⟨least, average, greatest, hmin, hmean, -, -, -, rfl, -⟩ := haccurate.extremes hne
    -- with a counter of zero no minimum is shown
    have hcycles : 0 < times.length % 2 ^ 64 := by
      rw [CycleMetrics.min, h.totalCycles] at hmin
      by_contra hzero
      rw [if_neg hzero] at hmin
      cases hmin
    rw [(h.shown hcycles).2.2, Option.some.injEq,
      Nat.div_eq_of_lt (Nat.lt_of_lt_of_le hsum hge), Nat.div_eq_zero_iff] at hmean
    exact .inr ⟨hrelease, hmean.resolve_left hcycles.ne'⟩

/-- For every size of the ring, every deadline and all times that fit with their sum in a `u64`: the
calls return and the metrics are accurate exactly if the cycles can be counted and the deadline
fits. The two entry points do the same. -/
theorem statistics_iff (b : Build) {histogramSize : Nat} {deadline : Duration}
    {m : CycleMetrics (max histogramSize 1)} (hnew : new histogramSize deadline = some m)
    (calls : List RecordCall) (hsum : (calls.map RecordCall.ns).sum < 2 ^ 64) :
    ((∃ m', m.run b calls = .ok m' ∧ m'.Accurate deadline (calls.map RecordCall.ns)) ↔
      Countable b (calls.map RecordCall.ns) ∧ DeadlineFits deadline (calls.map RecordCall.ns)) ∧
    ∀ (m₁ : CycleMetrics (max histogramSize 1)) (duration : Duration), duration.ns < 2 ^ 64 →
      m₁.record b duration = m₁.recordNs b duration.ns := by
  have hstart := follows_new hnew
  refine ⟨?_, fun m₁ _ h => record_eq_recordNs b m₁ h⟩
  constructor
  · rintro ⟨m', hok, haccurate⟩
    have hfollows := hstart.run hsum hok
    have hreturned : b = .debug → (calls.map RecordCall.ns).length < 2 ^ 64 := by
      rw [List.length_map]
      exact (hstart.run_returns_iff hsum).mp ⟨m', hok⟩
    refine ⟨hfollows.countable hsum hreturned haccurate, deadlineFits_of_overruns_eq hsum ?_⟩
    rw [← haccurate.overruns, hfollows.overrunCount, hfollows.deadlineNs]
  · rintro ⟨hcount, hdeadline⟩
    have hlength : b = .debug → calls.length < 2 ^ 64 := by
      rintro rfl
      rcases hcount with hlt | ⟨h, -⟩
      · rwa [List.length_map] at hlt
      · cases h
    obtain ⟨m', hok⟩ := (hstart.run_returns_iff hsum).mpr hlength
    exact ⟨m', hok, (hstart.run hsum hok).accurate hsum hcount hdeadline⟩

/-- Three cycles in two samples, with an overrun. -/
theorem statistics_iff_wrapped :
    ∃ m m', new 2 ⟨1000, by decide⟩ = some m ∧
      m.run .debug [.record ⟨600, by decide⟩, .recordNs 1500, .record ⟨900, by decide⟩] = .ok m' ∧
      m'.Accurate ⟨1000, by decide⟩ [600, 1500, 900] := by
  obtain ⟨m, hnew⟩ := exists_new 2 ⟨1000, by decide⟩ (by decide)
  obtain ⟨m', hok, haccurate⟩ := (statistics_iff .debug hnew
    [.record ⟨600, by decide⟩, .recordNs 1500, .record ⟨900, by decide⟩] (by decide)).1.mpr
      ⟨.inl (by decide), .inl (by decide)⟩
  exact ⟨m, m', hnew, hok, haccurate⟩

/-- Of a deadline of `2 ^ 64` nanoseconds nothing is left, and one nanosecond counts as an overrun.
-/
theorem overrun_of_cut_deadline :
    ∃ m m', new 1 ⟨2 ^ 64, by decide⟩ = some m ∧ m.run .debug [.recordNs 1] = .ok m' ∧
      m'.overrunCount = 1 ∧ [1].countP (fun t => decide (2 ^ 64 < t)) = 0 :=
  ⟨_, _, rfl, rfl, rfl, by decide⟩

end CycleMetrics

end VirtualPlc.Runtime
