import VirtualPlc.Control.Extremes
import VirtualPlc.Fieldbus.Ethercat

/-!
# Frame statistics

The statistics of a master after any successes, mismatches of the working counter and timeouts. The
minimum uses zero for none, which is also a round-trip time: once a zero has been recorded, a later
time replaces it (`FrameStats.statistics_accurate_iff`).
-/

set_option autoImplicit false

namespace VirtualPlc.Fieldbus

open VirtualPlc.Control VirtualPlc.Word

/-- What is recorded of a frame. -/
inductive FrameEvent where
  | success (rttUs : BitVec 32)
  | wkcError
  | timeout
deriving DecidableEq, Repr

/-- Kinds of events, which are counted apart. -/
inductive FrameKind where
  | success
  | wkcError
  | timeout
deriving DecidableEq, Repr

namespace FrameEvent

def kind : FrameEvent → FrameKind
  | success _ => .success
  | wkcError => .wkcError
  | timeout => .timeout

/-- The round-trip time of a success. -/
def rtt : FrameEvent → Option Nat
  | success rttUs => some rttUs.toNat
  | wkcError | timeout => none

/-- The round-trip times recorded. -/
def times (events : List FrameEvent) : List Nat := events.filterMap rtt

/-- Number of the events of a kind. -/
def count (kind : FrameKind) (events : List FrameEvent) : Nat :=
  events.countP fun event => event.kind = kind

end FrameEvent

namespace FrameStats

/-- Records a timeout. -/
def recordTimeout (stats : FrameStats) : FrameStats :=
  { stats with framesSent := stats.framesSent + 1, timeouts := stats.timeouts + 1 }

/-- The counter of a kind of events. -/
def counter (stats : FrameStats) : FrameKind → BitVec 64
  | .success => stats.framesReceived
  | .wkcError => stats.wkcErrors
  | .timeout => stats.timeouts

/-- The statistics with an event recorded, where counters wrap. -/
def recorded (stats : FrameStats) : FrameEvent → FrameStats
  | .success rttUs => stats.recordSuccess rttUs
  | .wkcError => stats.recordWkcError
  | .timeout => stats.recordTimeout

/-- Records an event. A debug build panics where a counter overflows. -/
def record (b : Build) (stats : FrameStats) (event : FrameEvent) : Except Failure FrameStats := do
  let _ ← u64Add b stats.framesSent.toNat 1
  let _ ← u64Add b (stats.counter event.kind).toNat 1
  return stats.recorded event

/-- New statistics after some events. -/
def run (b : Build) (events : List FrameEvent) : Except Failure FrameStats :=
  events.foldlM (record b) zero

end FrameStats

/-- The least time so far after one more, with zero for none. -/
def lowerRtt (least time : Nat) : Nat := if least = 0 ∨ time < least then time else least

theorem lowerRtt_eq_zero_iff {least time : Nat} : lowerRtt least time = 0 ↔ time = 0 := by
  rw [lowerRtt]
  split <;> omega

/-- Without zeros a time is taken over if it is the first one or lower. -/
theorem isLeast_foldl_lowerRtt {times : List Nat} (hne : times ≠ []) (hzero : 0 ∉ times) :
    IsLeast {t | t ∈ times} (times.foldl lowerRtt 0) := by
  induction times using List.reverseRecOn with
  | nil => exact absurd rfl hne
  | append_singleton times time ih =>
    rw [List.mem_append, not_or] at hzero
    rw [List.foldl_concat]
    by_cases hempty : times = []
    · subst hempty
      exact isLeast_mem_singleton time
    · have hleast := ih hempty hzero.1
      -- the least time so far is one of those recorded, so it is not mistaken for none
      have hmem : times.foldl lowerRtt 0 ≠ 0 := fun h => hzero.1 (h ▸ hleast.1)
      have hmin : lowerRtt (times.foldl lowerRtt 0) time = min (times.foldl lowerRtt 0) time := by
        rw [lowerRtt]
        split <;> omega
      rw [hmin]
      exact isLeast_concat hleast time

/-- The least time is right if it is not zero, or was recorded last. -/
theorem isLeast_foldl_lowerRtt_iff {times : List Nat} (hne : times ≠ []) :
    IsLeast {t | t ∈ times} (times.foldl lowerRtt 0) ↔
      0 ∉ times ∨ times.getLast? = some 0 := by
  obtain ⟨before, last, rfl⟩ := (List.eq_nil_or_concat' times).resolve_left hne
  rw [List.getLast?_concat, Option.some.injEq]
  have hfinal : (before ++ [last]).foldl lowerRtt 0 = 0 ↔ last = 0 := by
    rw [List.foldl_concat]
    exact lowerRtt_eq_zero_iff
  constructor
  · intro hleast
    by_cases hzero : 0 ∈ before ++ [last]
    · -- the least time is zero, which only the last one can have made it
      exact .inr (hfinal.mp (Nat.le_zero.mp (hleast.2 hzero)))
    · exact .inl hzero
  · rintro (hzero | hlast)
    · exact isLeast_foldl_lowerRtt hne hzero
    · rw [hfinal.mpr hlast]
      refine ⟨?_, fun t _ => Nat.zero_le t⟩
      subst hlast
      exact List.mem_append_right _ (List.mem_singleton_self 0)

namespace FrameEvent

theorem count_concat (kind : FrameKind) (events : List FrameEvent) (event : FrameEvent) :
    count kind (events ++ [event]) = count kind events + if event.kind = kind then 1 else 0 := by
  rw [count, List.countP_append, List.countP_singleton]
  simp only [decide_eq_true_eq]
  rfl

/-- Every event is of one of the kinds. -/
theorem length_eq_count (events : List FrameEvent) :
    events.length = count .success events + count .wkcError events + count .timeout events := by
  induction events using List.reverseRecOn with
  | nil => rfl
  | append_singleton events event ih =>
    have hone : (if event.kind = .success then 1 else 0) +
        (if event.kind = .wkcError then 1 else 0) +
        (if event.kind = .timeout then 1 else 0) = 1 := by
      cases event.kind <;> rfl
    rw [List.length_append, List.length_singleton, count_concat, count_concat, count_concat, ih]
    omega

theorem count_le (kind : FrameKind) (events : List FrameEvent) :
    count kind events ≤ events.length := List.countP_le_length

theorem times_concat_success (events : List FrameEvent) (rttUs : BitVec 32) :
    times (events ++ [success rttUs]) = times events ++ [rttUs.toNat] := by
  rw [times, List.filterMap_append]
  rfl

/-- Other events have no time. -/
theorem times_concat_of_none {event : FrameEvent} (events : List FrameEvent)
    (h : event.rtt = none) : times (events ++ [event]) = times events := by
  rw [times, List.filterMap_append, List.filterMap_cons_none h, List.filterMap_nil,
    List.append_nil]
  rfl

end FrameEvent

namespace FrameStats

open FrameEvent (times count)

variable {b : Build} {s s' : FrameStats} {events : List FrameEvent} {event : FrameEvent}

theorem counter_recorded (s : FrameStats) (event : FrameEvent) (kind : FrameKind) :
    (s.recorded event).counter kind = s.counter kind + if event.kind = kind then 1 else 0 := by
  cases event <;> cases kind <;> first
    | rfl
    | exact (BitVec.add_zero _).symm

theorem framesSent_recorded (s : FrameStats) (event : FrameEvent) :
    (s.recorded event).framesSent = s.framesSent + 1 := by
  cases event <;> rfl

theorem minRttUs_recordSuccess (s : FrameStats) (rttUs : BitVec 32) :
    (s.recordSuccess rttUs).minRttUs.toNat = lowerRtt s.minRttUs.toNat rttUs.toNat := by
  have hzero : s.minRttUs = 0 ↔ s.minRttUs.toNat = 0 := by
    rw [BitVec.toNat_eq]
    rfl
  simp only [recordSuccess, lowerRtt, hzero, BitVec.lt_def]
  split <;> rfl

theorem maxRttUs_recordSuccess (s : FrameStats) (rttUs : BitVec 32) :
    (s.recordSuccess rttUs).maxRttUs.toNat = max s.maxRttUs.toNat rttUs.toNat := by
  simp only [recordSuccess, BitVec.lt_def]
  split <;> omega

/-- What the statistics say of the times recorded. -/
structure Shows (times : List Nat) (s : FrameStats) : Prop where
  least : s.minRttUs.toNat = times.foldl lowerRtt 0
  greatest : s.maxRttUs.toNat = times.foldl max 0
  last : times ≠ [] →
    s.minRttUs.toNat ≤ s.lastRttUs.toNat ∧ s.lastRttUs.toNat ≤ s.maxRttUs.toNat

theorem Shows.recordSuccess {times : List Nat} (h : Shows times s) (rttUs : BitVec 32) :
    Shows (times ++ [rttUs.toNat]) (s.recordSuccess rttUs) := by
  refine ⟨?_, ?_, fun _ => ⟨?_, ?_⟩⟩
  · rw [minRttUs_recordSuccess, List.foldl_concat, h.least]
  · rw [maxRttUs_recordSuccess, List.foldl_concat, h.greatest]
  · change (s.recordSuccess rttUs).minRttUs.toNat ≤ rttUs.toNat
    rw [minRttUs_recordSuccess, lowerRtt]
    split <;> omega
  · change rttUs.toNat ≤ (s.recordSuccess rttUs).maxRttUs.toNat
    rw [maxRttUs_recordSuccess]
    exact le_max_right _ _

/-- The statistics say what has been recorded, with counters that wrap. -/
structure Follows (events : List FrameEvent) (s : FrameStats) : Prop where
  sent : s.framesSent = BitVec.ofNat 64 events.length
  counters : ∀ kind, s.counter kind = BitVec.ofNat 64 (count kind events)
  shows : Shows (times events) s

theorem follows_zero : Follows [] zero := by
  refine ⟨rfl, fun kind => ?_, rfl, rfl, fun h => absurd rfl h⟩
  cases kind <;> rfl

theorem Follows.recorded (h : Follows events s) (event : FrameEvent) :
    Follows (events ++ [event]) (s.recorded event) := by
  refine ⟨?_, fun kind => ?_, ?_⟩
  · rw [framesSent_recorded, h.sent, List.length_append, BitVec.ofNat_add]
    rfl
  · rw [counter_recorded, h.counters kind, FrameEvent.count_concat, BitVec.ofNat_add]
    split <;> rfl
  · cases event with
    | success rttUs =>
      rw [FrameEvent.times_concat_success]
      exact h.shows.recordSuccess rttUs
    | wkcError =>
      rw [FrameEvent.times_concat_of_none events rfl]
      exact ⟨h.shows.least, h.shows.greatest, h.shows.last⟩
    | timeout =>
      rw [FrameEvent.times_concat_of_none events rfl]
      exact ⟨h.shows.least, h.shows.greatest, h.shows.last⟩

theorem run_concat (b : Build) (events : List FrameEvent) (event : FrameEvent) :
    run b (events ++ [event]) = run b events >>= fun s => s.record b event :=
  foldlM_concat _ _ _ _

theorem record_eq_ok_iff :
    s.record b event = .ok s' ↔
      (b = .debug → s.framesSent.toNat + 1 < 2 ^ 64 ∧ (s.counter event.kind).toNat + 1 < 2 ^ 64) ∧
        s' = s.recorded event := by
  rw [record, bind_eq_ok, imp_and, ← u64Add_returns_iff, ← u64Add_returns_iff]
  constructor
  · rintro ⟨sent, hsent, h⟩
    obtain ⟨counted, hcounted, hret⟩ := bind_eq_ok.mp h
    cases hret
    exact ⟨⟨⟨sent, hsent⟩, counted, hcounted⟩, rfl⟩
  · rintro ⟨⟨⟨sent, hsent⟩, counted, hcounted⟩, rfl⟩
    exact ⟨sent, hsent, bind_eq_ok.mpr ⟨counted, hcounted, rfl⟩⟩

theorem follows_run (hok : run b events = .ok s) : Follows events s := by
  induction events using List.reverseRecOn generalizing s with
  | nil =>
    cases hok
    exact follows_zero
  | append_singleton events event ih =>
    rw [run_concat] at hok
    obtain ⟨s₁, hrun, hlast⟩ := bind_eq_ok.mp hok
    obtain ⟨-, rfl⟩ := record_eq_ok_iff.mp hlast
    exact (ih hrun).recorded event

/-- No counter is ahead of the frames sent, which can stop a debug build. -/
theorem run_returns_iff (b : Build) (events : List FrameEvent) :
    (∃ s, run b events = .ok s) ↔ (b = .debug → events.length < 2 ^ 64) := by
  induction events using List.reverseRecOn with
  | nil => exact iff_of_true ⟨zero, rfl⟩ fun _ => by decide
  | append_singleton events event ih =>
    rw [run_concat, List.length_append, List.length_singleton]
    constructor
    · rintro ⟨s', hok⟩ hdebug
      obtain ⟨s, hrun, hlast⟩ := bind_eq_ok.mp hok
      have hlength := ih.mp ⟨s, hrun⟩ hdebug
      have hroom := ((record_eq_ok_iff.mp hlast).1 hdebug).1
      rwa [(follows_run hrun).sent, BitVec.toNat_ofNat, Nat.mod_eq_of_lt hlength] at hroom
    · intro hlength
      obtain ⟨s, hrun⟩ := ih.mpr fun hdebug => Nat.lt_of_succ_lt (hlength hdebug)
      have hfollows := follows_run hrun
      refine ⟨_, bind_eq_ok.mpr ⟨s, hrun, record_eq_ok_iff.mpr ⟨fun hdebug => ?_, rfl⟩⟩⟩
      have hroom := hlength hdebug
      have hcount := FrameEvent.count_le event.kind events
      rw [hfollows.sent, hfollows.counters, BitVec.toNat_ofNat, BitVec.toNat_ofNat,
        Nat.mod_eq_of_lt (by omega), Nat.mod_eq_of_lt (by omega)]
      omega

/-- The extremes are those of the times recorded, the last time lies between them, and every frame
sent is accounted for. -/
structure Accurate (times : List Nat) (s : FrameStats) : Prop where
  least : times ≠ [] → IsLeast {t | t ∈ times} s.minRttUs.toNat
  greatest : times ≠ [] → IsGreatest {t | t ∈ times} s.maxRttUs.toNat
  last : times ≠ [] →
    s.minRttUs.toNat ≤ s.lastRttUs.toNat ∧ s.lastRttUs.toNat ≤ s.maxRttUs.toNat
  frames : s.framesSent = s.framesReceived + s.wkcErrors + s.timeouts

theorem Follows.frames (h : Follows events s) :
    s.framesSent = s.framesReceived + s.wkcErrors + s.timeouts := by
  have hreceived : s.framesReceived = _ := h.counters .success
  have herrors : s.wkcErrors = _ := h.counters .wkcError
  have htimeouts : s.timeouts = _ := h.counters .timeout
  rw [h.sent, hreceived, herrors, htimeouts, ← BitVec.ofNat_add, ← BitVec.ofNat_add,
    ← FrameEvent.length_eq_count]

theorem Follows.accurate_iff (h : Follows events s) :
    Accurate (times events) s ↔ 0 ∉ times events ∨ (times events).getLast? = some 0 := by
  by_cases hne : times events = []
  · rw [hne]
    refine iff_of_true ⟨?_, ?_, ?_, h.frames⟩ (.inl List.not_mem_nil) <;>
      exact fun hne => absurd rfl hne
  · rw [← isLeast_foldl_lowerRtt_iff hne, ← h.shows.least]
    constructor
    · intro haccurate
      exact haccurate.least hne
    · intro hleast
      refine ⟨fun _ => hleast, fun _ => ?_, h.shows.last, h.frames⟩
      rw [h.shows.greatest]
      exact isGreatest_foldl_max hne fun t _ => Nat.zero_le t

/-- For every sequence of events: the statistics are recorded and accurate exactly if no zero was
recorded or a zero was recorded last; a debug build also has to count fewer than `2 ^ 64` frames. -/
theorem statistics_accurate_iff (b : Build) (events : List FrameEvent) :
    (∃ s, run b events = .ok s ∧ Accurate (times events) s) ↔
      (b = .debug → events.length < 2 ^ 64) ∧
        (0 ∉ times events ∨ (times events).getLast? = some 0) := by
  rw [← run_returns_iff]
  constructor
  · rintro ⟨s, hrun, haccurate⟩
    exact ⟨⟨s, hrun⟩, (follows_run hrun).accurate_iff.mp haccurate⟩
  · rintro ⟨⟨s, hrun⟩, hzero⟩
    exact ⟨s, hrun, (follows_run hrun).accurate_iff.mpr hzero⟩

/-- A time of zero and one of five microseconds, after which five is shown as the minimum. -/
theorem minimum_after_zero :
    ∃ s, run .debug [.success 0, .success 5] = .ok s ∧ s.minRttUs = 5 ∧
      ¬ IsLeast {t | t ∈ times [.success 0, .success 5]} s.minRttUs.toNat := by
  refine ⟨_, rfl, rfl, fun h => ?_⟩
  have hzero : 5 ≤ 0 := h.2 (List.mem_cons_self)
  exact absurd hzero (by decide)

end FrameStats

end VirtualPlc.Fieldbus
