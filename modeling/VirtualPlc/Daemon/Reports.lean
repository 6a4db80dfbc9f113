import VirtualPlc.Control.Reading
import VirtualPlc.Control.Response
import VirtualPlc.Daemon.SafeOutputs

/-!
# Threshold reports

An exchange that reports too many working-counter errors should fault the scheduler before its next
cycle. The loop looks at the result of the regular exchange only: `reported_iff` gives the turns in
which a report of one of the other two exchanges is lost.
-/

set_option autoImplicit false

namespace VirtualPlc.Daemon

open VirtualPlc.Runtime VirtualPlc.Control

namespace LoopCall

/-- An exchange that reports the threshold. -/
def IsReport : LoopCall → Prop
  | .exchange result => isWkcThreshold result = true
  | _ => False

/-- The scheduler has entered the fault state. -/
def IsFault : LoopCall → Prop
  | .enterFault .fault => True
  | _ => False

/-- A cycle of the scheduler. -/
def IsCycle : LoopCall → Prop
  | .runCycle => True
  | _ => False

end LoopCall

/-- Every threshold report is followed by a fault before any further cycle. -/
def Reported (calls : List LoopCall) : Prop :=
  Answered LoopCall.IsReport LoopCall.IsFault LoopCall.IsCycle calls

/-! ## The condition -/

/-- The exchange after a recovery is made: a good exchange ends the streak. -/
def Setup.Recovers (setup : Setup) (past : List Cycle) (cycle : Cycle) : Prop :=
  cycle.exchange = .ok () ∧ Streak.Muted setup.grace (links past) ∧
    ¬ Streak.Muted setup.grace (links (past ++ [cycle]))

/-- No report is lost in a turn: the exchange after a recovery reports nothing, and the one that
sends zeros does so only at the failure limit. -/
structure Setup.Heeds (setup : Setup) (past : List Cycle) (cycle : Cycle) : Prop where
  recovered : cycle.shutdownRequested = false → setup.Recovers past cycle →
    isWkcThreshold cycle.recoveredExchange = false
  safe : cycle.shutdownRequested = false → cycle.link = some false →
    isWkcThreshold cycle.safeExchange = true → setup.GivesUp (past ++ [cycle])

/-- No report is lost in any turn. -/
def Setup.HeedsAll (setup : Setup) (cycles : List Cycle) : Prop :=
  ∀ past cycle rest, cycles = past ++ cycle :: rest → setup.Heeds past cycle

theorem heedsAll_nil (setup : Setup) : setup.HeedsAll [] := by
  intro past cycle rest heq
  simp at heq

theorem heedsAll_concat {setup : Setup} {past : List Cycle} {cycle : Cycle} :
    setup.HeedsAll (past ++ [cycle]) ↔ setup.HeedsAll past ∧ setup.Heeds past cycle := by
  constructor
  · intro h
    refine ⟨fun front other rest heq => ?_, h past cycle [] rfl⟩
    exact h front other (rest ++ [cycle]) (by rw [heq, List.append_assoc, List.cons_append])
  · rintro ⟨hpast, hlast⟩ front other rest heq
    rcases split_concat heq with ⟨rfl, rfl, -⟩ | ⟨rest', -, hold⟩
    · exact hlast
    · exact hpast front other rest' hold

/-! ## The calls of a turn -/

/-- The loop has just run a cycle, or has made no call yet. -/
def EndsInCycle (calls : List LoopCall) : Prop := calls = [] ∨ ∃ front, calls = front ++ [.runCycle]

theorem EndsInCycle.reported_append {calls more : List LoopCall} (h : EndsInCycle calls) :
    Reported (calls ++ more) ↔ Reported calls ∧ Reported more := by
  rcases h with rfl | ⟨front, rfl⟩
  · simp [Reported, answered_nil]
  · have hsplit : ∀ back, Reported (front ++ .runCycle :: back) ↔ Reported front ∧ Reported back :=
      fun back => answered_barrier trivial id id
    rw [List.append_assoc, List.singleton_append, hsplit, hsplit]
    simp [Reported, answered_nil]

/-- The regular exchange is judged together with what follows it. -/
theorem EndsInCycle.reported_sendOutputs {v : LoopState} (h : EndsInCycle v.calls) (cycle : Cycle)
    (more : List LoopCall) : Reported ((v.sendOutputs cycle).calls ++ more) ↔
      Reported v.calls ∧ Reported (.exchange cycle.exchange :: more) := by
  unfold LoopState.sendOutputs
  split
  · rw [LoopState.call_calls, List.append_assoc, h.reported_append, List.singleton_append]
  · rw [LoopState.call_calls, LoopState.call_calls, List.append_assoc, List.append_assoc,
      h.reported_append]
    simp [Reported, answered_cons, LoopCall.IsReport]

section Turn

variable {setup : Setup} {past : List Cycle} {v : LoopState} {cycle : Cycle}

/-- Between two turns, the reports so far are answered exactly when the turns so far heed them. -/
structure Heard (setup : Setup) (past : List Cycle) (v : LoopState) : Prop
    extends Supervised setup past v where
  ends : EndsInCycle v.calls
  reported : Reported v.calls ↔ setup.HeedsAll past

theorem Supervised.enterFault_state (h : Supervised setup past v) :
    v.scheduler.state.enterFault.current = .fault := by
  rw [StateMachine.enterFault, h.ready.running]
  rfl

theorem Heard.reported_wkcFault (h : Heard setup past v) :
    Reported (v.sendOutputs cycle).enterFault.calls ↔ Reported v.calls := by
  have hcalls : (v.sendOutputs cycle).enterFault.calls =
      (v.sendOutputs cycle).calls ++ [.enterFault .fault] := by
    simp [LoopState.enterFault, h.enterFault_state]
  rw [hcalls, h.ends.reported_sendOutputs]
  simp [Reported, answered_cons, answered_nil, first_cons, LoopCall.IsReport, LoopCall.IsFault]

theorem Heard.reported_gaveUp (h : Heard setup past v) :
    Reported ((v.sendOutputs cycle).exchangeFailed cycle).enterFault.calls ↔
      Reported v.calls := by
  have hcalls : ((v.sendOutputs cycle).exchangeFailed cycle).enterFault.calls =
      (v.sendOutputs cycle).calls ++
        [.setOutputs .zero, .exchange cycle.safeExchange, .enterFault .fault] := by
    simp [LoopState.enterFault, LoopState.exchangeFailed, h.enterFault_state]
  rw [hcalls, h.ends.reported_sendOutputs]
  simp [Reported, answered_cons, answered_nil, first_cons, LoopCall.IsReport, LoopCall.IsFault,
    LoopCall.IsCycle]

/-- The logic half of a turn: no report is answered after the cycle. -/
theorem Linked.calls (hlinked : Linked setup past cycle v) :
    (v.logicCycle setup.maxCycles cycle).state.calls =
      v.calls ++ [.getInputs cycle.inputs, .runCycle] :=
  (hlinked.ready.logicCycle cycle).1.calls

theorem Heard.reported_failed (h : Heard setup past v)
    (hlinked : Linked setup past cycle ((v.sendOutputs cycle).exchangeFailed cycle))
    (hwkc : isWkcThreshold cycle.exchange = false) :
    Reported (((v.sendOutputs cycle).exchangeFailed cycle).logicCycle setup.maxCycles
      cycle).state.calls ↔ Reported v.calls ∧ isWkcThreshold cycle.safeExchange = false := by
  have hcalls : ((v.sendOutputs cycle).exchangeFailed cycle).calls =
      (v.sendOutputs cycle).calls ++ [.setOutputs .zero, .exchange cycle.safeExchange] := rfl
  rw [hlinked.calls, hcalls, List.append_assoc, h.ends.reported_sendOutputs]
  simp [Reported, answered_cons, answered_nil, first_cons, first_nil, LoopCall.IsReport,
    LoopCall.IsFault, LoopCall.IsCycle, hwkc]

theorem Heard.reported_normal (h : Heard setup past v)
    (hlinked : Linked setup past cycle (v.sendOutputs cycle))
    (hwkc : isWkcThreshold cycle.exchange = false) :
    Reported ((v.sendOutputs cycle).logicCycle setup.maxCycles cycle).state.calls ↔
      Reported v.calls := by
  rw [hlinked.calls, h.ends.reported_sendOutputs]
  simp [Reported, answered_cons, answered_nil, LoopCall.IsReport, hwkc]

theorem Heard.reported_recovering (h : Heard setup past v) (hexchange : cycle.exchange = .ok ())
    (hstreak : v.inFailureStreak = true) :
    Reported (((v.sendOutputs cycle).exchangeRecovered setup.failurePolicy cycle).logicCycle
      setup.maxCycles cycle).state.calls ↔
      Reported v.calls ∧ (setup.Recovers past cycle →
        isWkcThreshold cycle.recoveredExchange = false) := by
  have hlinked := h.linked_recovering hexchange hstreak
  have hwkc := isWkcThreshold_ok hexchange
  have hmuted : Streak.Muted setup.grace (links past) := h.muted_iff.mp hstreak
  have hactive : ((v.sendOutputs cycle).exchangeRecovered setup.failurePolicy
      cycle).inFailureStreak = true ↔ Streak.Muted setup.grace (links (past ++ [cycle])) := by
    rw [hlinked.counts.active]
    exact Streak.muted_iff
  rw [hlinked.calls]
  unfold LoopState.exchangeRecovered at hactive ⊢
  dsimp only at hactive ⊢
  split at hactive
  · next hend =>
    have hrecovers : setup.Recovers past cycle := ⟨hexchange, hmuted, by simpa using hactive⟩
    rw [if_pos hend, LoopState.call_calls, List.append_assoc, h.ends.reported_sendOutputs]
    simp [Reported, answered_cons, answered_nil, first_cons, first_nil, LoopCall.IsReport,
      LoopCall.IsFault, LoopCall.IsCycle, hwkc, hrecovers]
  · next hend =>
    have hnot : ¬ setup.Recovers past cycle :=
      fun hrecovers => hrecovers.2.2 (hactive.mp (by simpa using hstreak))
    rw [if_neg hend, h.ends.reported_sendOutputs]
    simp [Reported, answered_cons, answered_nil, LoopCall.IsReport, hwkc, hnot]

/-- A turn answers its own reports exactly when it heeds them. -/
theorem Heard.turn (h : Heard setup past v) (cycle : Cycle) :
    Reported (v.turn setup cycle).state.calls ↔ setup.HeedsAll (past ++ [cycle]) := by
  rw [heedsAll_concat, ← h.reported]
  cases LoopState.turn_cases setup v cycle with
  | stopped hstop heq =>
    -- a turn that stops makes no exchange and has nothing to heed
    have hheeds : setup.Heeds past cycle := ⟨by simp [hstop], by simp [hstop]⟩
    rw [heq]
    exact (and_iff_left hheeds).symm
  | wkcFault hstop hwkc heq =>
    have hheeds : setup.Heeds past cycle := by
      refine ⟨fun _ hrecovers => ?_, fun _ hlink => ?_⟩
      · rw [isWkcThreshold_ok hrecovers.1] at hwkc
        simp at hwkc
      · rw [Cycle.link_wkc hwkc] at hlink
        simp at hlink
    rw [heq, and_iff_left hheeds]
    exact h.reported_wkcFault
  | gaveUp hstop e hexchange hwkc hlimit heq =>
    have hgives := givesUp_iff.mpr ((h.limitReached_iff hexchange hwkc).mp hlimit)
    have hheeds : setup.Heeds past cycle := by
      refine ⟨fun _ hrecovers => ?_, fun _ _ _ => hgives⟩
      rw [hrecovers.1] at hexchange
      simp at hexchange
    rw [heq, and_iff_left hheeds]
    exact h.reported_gaveUp
  | failed hstop e hexchange hwkc hlimit heq =>
    have hlinked := h.linked_failed hexchange hwkc hlimit
    -- below the limit no fault answers what the exchange of the zeros reports
    have hgives : ¬ setup.GivesUp (past ++ [cycle]) := by
      rw [givesUp_iff, ← h.limitReached_iff hexchange hwkc, hlimit]
      simp
    rw [heq, h.reported_failed hlinked (hexchange ▸ hwkc)]
    refine and_congr_right fun _ => ⟨fun hsafe => ⟨fun _ hrecovers => ?_, ?_⟩, fun hheeds => ?_⟩
    · rw [hrecovers.1] at hexchange
      simp at hexchange
    · simp [hsafe]
    · have hsafe := mt (hheeds.safe hstop (Cycle.link_failed hexchange hwkc)) hgives
      simpa using hsafe
  | recovering hstop hexchange hstreak heq =>
    rw [heq, h.reported_recovering hexchange hstreak]
    refine and_congr_right fun _ => ⟨fun hquiet => ⟨fun _ => hquiet, fun _ hlink => ?_⟩,
      fun hheeds => hheeds.recovered hstop⟩
    rw [Cycle.link_ok hexchange] at hlink
    simp at hlink
  | normal hstop hexchange hstreak heq =>
    have hheeds : setup.Heeds past cycle := by
      refine ⟨fun _ hrecovers => ?_, fun _ hlink => ?_⟩
      · exact absurd (h.muted_iff.mpr hrecovers.2.1) (by simp [hstreak])
      · rw [Cycle.link_ok hexchange] at hlink
        simp at hlink
    rw [heq, and_iff_left hheeds]
    exact h.reported_normal (h.linked_normal hexchange hstreak) (isWkcThreshold_ok hexchange)

theorem Linked.endsInCycle (hlinked : Linked setup past cycle v) :
    EndsInCycle (v.logicCycle setup.maxCycles cycle).state.calls := by
  rw [hlinked.calls]
  exact .inr ⟨v.calls ++ [.getInputs cycle.inputs], by simp⟩

/-- A turn that lets the loop go on keeps the invariant. -/
theorem heard_turn {v' : LoopState} (h : Heard setup past v)
    (hnext : v.turn setup cycle = .next v') : Heard setup (past ++ [cycle]) v' := by
  have hreported := h.turn cycle
  rw [hnext] at hreported
  refine ⟨supervised_turn h.toSupervised hnext, ?_, hreported⟩
  cases LoopState.turn_cases setup v cycle with
  | stopped _ heq | wkcFault _ _ heq | gaveUp _ _ _ _ _ heq =>
    rw [heq] at hnext
    simp at hnext
  | failed _ e hexchange hwkc hlimit heq =>
    have hends := (h.linked_failed hexchange hwkc hlimit).endsInCycle
    rwa [← heq, hnext] at hends
  | recovering _ hexchange hstreak heq =>
    have hends := (h.linked_recovering hexchange hstreak).endsInCycle
    rwa [← heq, hnext] at hends
  | normal _ hexchange hstreak heq =>
    have hends := (h.linked_normal hexchange hstreak).endsInCycle
    rwa [← heq, hnext] at hends

end Turn

/-! ## The whole run -/

/-- The shutdown neither reports nor answers anything. -/
theorem reported_shutDown (v : LoopState) : Reported v.shutDown.calls ↔ Reported v.calls :=
  answered_append (by simp [LoopCall.IsReport, LoopCall.IsFault])

/-- A run, finished or not, faults on every threshold report exactly when each of its turns heeds
the reports of its exchanges. -/
theorem reported_iff {setup : Setup} {world : World}
    (h : (runSchedulerLoop setup world).unused world.cycles = []) :
    Reported (runSchedulerLoop setup world).calls ↔ setup.HeedsAll world.cycles := by
  rcases runSchedulerLoop_cases setup world with ⟨context, e, hfailed⟩ | ⟨start, hsup, hcalls, hrun⟩
  · rw [hfailed] at h ⊢
    have hnil : world.cycles = [] := h
    rw [hnil]
    exact iff_of_true answered_nil (heedsAll_nil setup)
  · have hstart : Reported start.calls ↔ setup.HeedsAll [] := by
      rw [hcalls]
      exact iff_of_true answered_nil (heedsAll_nil setup)
    have hheard : Heard setup [] start := ⟨hsup, .inl hcalls, hstart⟩
    rw [hrun] at h ⊢
    rcases LoopState.mainLoop_rule (fun _ _ hs => hs.ready.running)
      (fun _ _ _ _ hs hnext => heard_turn hs hnext) world.cycles [] start hheard with
      ⟨v', heq, hs⟩ | ⟨front, cycle, unused, v', v'', hsplit, heq, hs, hleave⟩
    · rw [heq] at h ⊢
      exact hs.reported
    · rw [heq] at h ⊢
      have hunused : unused = [] := h
      have hturn := hs.turn cycle
      rw [hleave] at hturn
      rw [hsplit, hunused]
      exact (reported_shutDown v'').trans hturn

/-- A turn whose regular exchange reports the threshold. -/
def alarmCycle : Cycle := { lampCycle with exchange := .error (.wkcThresholdExceeded 3 3) }

/-- The report of a regular exchange is heeded. -/
theorem lamp_reported :
    Reported (runSchedulerLoop (lampSetup .allOff) (lampWorld [lampCycle, alarmCycle])).calls := by
  refine (reported_iff rfl).mpr fun past cycle rest heq => ?_
  have hmem : cycle ∈ [lampCycle, alarmCycle] := by
    have hsplit : [lampCycle, alarmCycle] = past ++ cycle :: rest := heq
    rw [hsplit]
    simp
  have hcases : cycle = lampCycle ∨ cycle = alarmCycle := by simpa using hmem
  rcases hcases with rfl | rfl
  · exact ⟨fun _ _ => rfl, fun _ hlink => by simp [Cycle.link, lampCycle] at hlink⟩
  · refine ⟨fun _ hrecovers => ?_, fun _ hlink => ?_⟩
    · cases hrecovers.1
    · rw [Cycle.link_wkc rfl] at hlink
      cases hlink

/-- A turn whose regular exchange fails, and whose zeros meet the threshold. -/
def lostReport : Cycle :=
  { lampCycle with
    exchange := .error (.fieldbusError "Receive failed")
    safeExchange := .error (.wkcThresholdExceeded 3 3) }

/-- The report is lost: the scheduler runs its cycle and stays in RUN. -/
theorem report_lost :
    ¬ Reported (runSchedulerLoop (lampSetup .allOff) (lampWorld [lostReport])).calls := by
  have hcalls : (runSchedulerLoop (lampSetup .allOff) (lampWorld [lostReport])).calls =
      [.setOutputs .zero, .exchange lostReport.exchange, .setOutputs .zero,
        .exchange lostReport.safeExchange, .getInputs lostReport.inputs, .runCycle] := by decide
  rw [hcalls]
  simp [Reported, answered_cons, first_cons, first_nil, LoopCall.IsReport, LoopCall.IsFault,
    LoopCall.IsCycle, lostReport, isWkcThreshold]

end VirtualPlc.Daemon
