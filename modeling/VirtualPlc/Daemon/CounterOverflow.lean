import VirtualPlc.Daemon.Supervision
import VirtualPlc.Fieldbus.WkcOverflow

/-!
# Overflow of the failure counters

Two counters of 32 bits are incremented on failures of the fieldbus: by the daemon's loop, and by
the EtherCAT master on mismatches of the working counter. An increment overflows exactly where
`2 ^ 32` failures have come without the successes that clear the counter (`failure_counters_iff`). A
limit that is set keeps the loop from getting there.
-/

set_option autoImplicit false

namespace VirtualPlc.Daemon

open VirtualPlc.Control VirtualPlc.Fieldbus VirtualPlc.Runtime VirtualPlc.Word

/-- The loop has made some turns and goes on. -/
def Runs (setup : Setup) (world : World) (front : List Cycle) (v : LoopState) : Prop :=
  runSchedulerLoop setup { world with cycles := front } = .running v

/-- After some turns the next one increments the loop's counter. -/
structure Increments (setup : Setup) (world : World) (front : List Cycle) (cycle : Cycle)
    (v : LoopState) : Prop where
  runs : Runs setup world front v
  live : cycle.shutdownRequested = false
  failed : cycle.link = some false

/-- No increment of the loop's counter overflows. -/
def FailuresFit (setup : Setup) (world : World) : Prop :=
  ∀ front cycle rest v, world.cycles = front ++ cycle :: rest →
    Increments setup world front cycle v → v.consecutiveFbFailures.toNat + 1 < u32Card

/-- The results end with a streak of `2 ^ 32` failures, or more. -/
def LongStreak (grace : Nat) (results : List Bool) : Prop :=
  ∃ piece, piece <:+ results ∧ Streak.Unbroken grace piece ∧ u32Card ≤ piece.count false

/-- No turn that is counted is part of such a streak. -/
def StreaksShort (setup : Setup) (world : World) : Prop :=
  ∀ front cycle rest v, world.cycles = front ++ cycle :: rest →
    Increments setup world front cycle v → ¬ LongStreak setup.grace (links (front ++ [cycle]))

section Loop

variable {setup : Setup} {world : World} {front : List Cycle} {cycle : Cycle} {v : LoopState}

/-- A loop that goes on after some turns has gone on after those before the last one. -/
theorem mainLoop_concat {v w : LoopState} {front unused : List Cycle}
    (h : v.mainLoop setup (front ++ [cycle]) = (.next w, unused)) :
    ∃ v', v.mainLoop setup front = (.next v', []) ∧ v'.turn setup cycle = .next w := by
  induction front generalizing v with
  | nil =>
    rw [List.nil_append, LoopState.mainLoop] at h
    split at h
    · next hstate =>
      cases hturn : v.turn setup cycle with
      | leave v' =>
        rw [hturn] at h
        cases h
      | next v' =>
        simp only [hturn, LoopState.mainLoop] at h
        split at h
        · cases h
          refine ⟨v, ?_, hturn⟩
          rw [LoopState.mainLoop, if_pos hstate]
        · cases h
    · cases h
  | cons first rest ih =>
    rw [List.cons_append, LoopState.mainLoop] at h
    split at h
    · next hstate =>
      cases hturn : v.turn setup first with
      | leave v' =>
        rw [hturn] at h
        cases h
      | next v' =>
        rw [hturn] at h
        obtain ⟨v'', hloop, hlast⟩ := ih h
        refine ⟨v'', ?_, hlast⟩
        rw [LoopState.mainLoop, if_pos hstate]
        simp only [hturn, hloop]
    · cases h

/-- Where a loop starts does not depend on its turns. -/
theorem runs_iff (setup : Setup) (world : World) :
    (∀ front v, ¬ Runs setup world front v) ∨
      ∃ v₀, Supervised setup [] v₀ ∧ ∀ front v, Runs setup world front v ↔
        (v₀.mainLoop setup front).1 = .next v := by
  cases hinit : (createScheduler setup.config).initializeScheduler world.init with
  | mk result s =>
    cases result with
    | error e =>
      left
      intro front v h
      simp only [Runs, runSchedulerLoop, hinit] at h
      cases h
    | ok u =>
      cases hstart : s.start world.spawn with
      | mk result s' =>
        cases result with
        | error e =>
          left
          intro front v h
          simp only [Runs, runSchedulerLoop, hinit, hstart] at h
          cases h
        | ok u =>
          right
          refine ⟨.new s', supervised_new hinit hstart, fun front v => ?_⟩
          simp only [Runs, runSchedulerLoop, hinit, hstart, waitForShutdown_zero,
            Bool.false_eq_true, if_false]
          cases (LoopState.new s').mainLoop setup front with
          | mk flow unused => cases flow <;> simp

theorem supervised_of_runs (h : Runs setup world front v) : Supervised setup front v := by
  rcases runs_iff setup world with hnone | ⟨v₀, hstart, hruns⟩
  · exact absurd h (hnone front v)
  · rw [hruns] at h
    rcases LoopState.mainLoop_rule (fun _ _ h => h.ready.running)
        (fun _ _ _ _ h hnext => supervised_turn h hnext) front [] v₀ hstart with
      ⟨v', heq, hv'⟩ | ⟨_, _, _, _, _, _, heq, _⟩
    · rw [heq] at h
      cases h
      exact hv'
    · rw [heq] at h
      cases h

theorem runs_concat {w : LoopState} (h : Runs setup world (front ++ [cycle]) w) :
    ∃ v, Runs setup world front v ∧ v.turn setup cycle = .next w := by
  rcases runs_iff setup world with hnone | ⟨v₀, -, hruns⟩
  · exact absurd h (hnone _ w)
  · rw [hruns] at h
    obtain ⟨v, hloop, hturn⟩ := mainLoop_concat (Prod.ext h rfl)
    refine ⟨v, ?_, hturn⟩
    rw [hruns, hloop]

/-- A turn that goes on has not been asked to stop. -/
theorem live_of_next {w : LoopState} (h : v.turn setup cycle = .next w) :
    cycle.shutdownRequested = false := by
  cases hstop : cycle.shutdownRequested with
  | false => rfl
  | true =>
    rw [LoopState.turn, if_pos hstop] at h
    cases h

theorem not_longStreak_iff :
    ¬ LongStreak setup.grace (links front) ↔ (setup.streak front).failures < u32Card := by
  rw [LongStreak, ← Streak.le_failures_iff, Nat.not_le]
  rfl

/-- The counter is the number of failures in the streak as long as that fits. -/
theorem counter_eq (h : Runs setup world front v)
    (hshort : (setup.streak front).failures < u32Card) :
    v.consecutiveFbFailures.toNat = (setup.streak front).failures := by
  rw [(supervised_of_runs h).counts.failures, BitVec.toNat_ofNat]
  exact Nat.mod_eq_of_lt hshort

theorem streak_increment (h : cycle.link = some false) :
    (setup.streak (front ++ [cycle])).failures = (setup.streak front).failures + 1 := by
  rw [Setup.streak, links_concat, h]
  exact congrArg Streak.failures (Streak.after_concat _ _ _)

/-- Other turns leave the count alone or clear it. -/
theorem streak_le (h : cycle.link ≠ some false) :
    (setup.streak (front ++ [cycle])).failures ≤ (setup.streak front).failures := by
  rw [Setup.streak, links_concat]
  cases hlink : cycle.link with
  | none =>
    rw [Option.toList_none, List.append_nil]
    exact le_refl _
  | some ok =>
    cases ok with
    | false => exact absurd hlink h
    | true =>
      rw [Option.toList_some, Streak.after_concat]
      exact Streak.succeed_failures_le _ _

/-- While no increment overflows, the streaks stay short. -/
theorem FailuresFit.short (h : FailuresFit setup world) {rest : List Cycle}
    (hsplit : world.cycles = front ++ rest) (hruns : Runs setup world front v) :
    (setup.streak front).failures < u32Card := by
  induction front using List.reverseRecOn generalizing v rest with
  | nil => exact Nat.two_pow_pos 32
  | append_singleton front cycle ih =>
    rw [List.append_assoc] at hsplit
    obtain ⟨v', hruns', hturn⟩ := runs_concat hruns
    have hbefore := ih hsplit hruns'
    by_cases hlink : cycle.link = some false
    · -- the turn increments the counter, which is still the length of the streak
      have hfits := h front cycle rest v' hsplit ⟨hruns', live_of_next hturn, hlink⟩
      rw [streak_increment hlink, ← counter_eq hruns' hbefore]
      exact hfits
    · exact Nat.lt_of_le_of_lt (streak_le hlink) hbefore

/-- A limit that is set is reached before the counter is full. -/
theorem Increments.short_of_limit (h : Increments setup world front cycle v)
    (hlimit : 0 < setup.limit) : (setup.streak (front ++ [cycle])).failures < u32Card := by
  have hbelow := (supervised_of_runs h.runs).below hlimit
  have hmax : setup.limit < u32Card := setup.failurePolicy.maxConsecutiveFailures.isLt
  rw [streak_increment h.failed]
  omega

/-- The loop's counter does not overflow exactly if a limit is set or no streak is that long. -/
theorem failuresFit_iff (setup : Setup) (world : World) :
    FailuresFit setup world ↔ 0 < setup.limit ∨ StreaksShort setup world := by
  constructor
  · intro h
    right
    intro front cycle rest v hsplit hinc
    have hbefore := h.short hsplit hinc.runs
    have hfits := h front cycle rest v hsplit hinc
    rw [not_longStreak_iff, streak_increment hinc.failed, ← counter_eq hinc.runs hbefore]
    exact hfits
  · intro h front cycle rest v hsplit hinc
    have hshort : (setup.streak (front ++ [cycle])).failures < u32Card := by
      rcases h with hlimit | hshort
      · exact hinc.short_of_limit hlimit
      · exact not_longStreak_iff.mp (hshort front cycle rest v hsplit hinc)
    rw [streak_increment hinc.failed] at hshort
    rw [counter_eq hinc.runs (Nat.lt_of_succ_lt hshort)]
    exact hshort

end Loop

/-! ## Both counters -/

open EthercatMaster Watched in
/-- The loop's counter overflows exactly without a limit and in a streak of `2 ^ 32` failures, the
master's exactly at `2 ^ 32` mismatches in a row. A threshold that is set needs almost as many
initialisations for that. -/
theorem failure_counters_iff (setup : Setup) (world : World) (b : Build) (config : EthercatConfig)
    (ops : List MasterOperation) :
    (FailuresFit setup world ↔ 0 < setup.limit ∨ StreaksShort setup world) ∧
    (ErrorsFit b config ops ↔ MismatchesShort b config ops) ∧
    (0 < config.wkcErrorThreshold → config.wkcErrorThreshold.toNat + ops.countP restarts < 2 ^ 32 →
      ErrorsFit b config ops) := by
  refine ⟨failuresFit_iff setup world, errorsFit_iff b config ops, ?_⟩
  intro hpos hcard
  exact errorsFit_of_threshold b config ops hpos hcard

open EthercatMaster Watched in
/-- Without a threshold a bus that answers `2 ^ 32` exchanges with a wrong working counter fills the
counter. -/
theorem errors_overflow : ¬ ErrorsFit .release unlimited (mismatches u32Card) :=
  not_errorsFit_mismatches (le_refl u32Card)

end VirtualPlc.Daemon
