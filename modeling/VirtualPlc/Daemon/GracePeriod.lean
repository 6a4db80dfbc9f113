import VirtualPlc.Control.Reading
import VirtualPlc.Daemon.SafeOutputs

/-!
# Limit and grace period

`supervision`: the loop faults for the fieldbus exactly at the turn in which the failures since the
last window of successes reach the limit, or at a threshold report; and from a failure until a
window of successes is complete, it hands over zeros and makes its exchanges with zeros.
-/

set_option autoImplicit false

namespace VirtualPlc.Daemon

open VirtualPlc.Runtime VirtualPlc.Control

/-- What the calls so far show: the counted results of the regular exchanges, the outputs handed
over last, and whether the next exchange is a regular one. -/
structure Shown where
  results : List Bool
  outputs : FieldbusOutputs
  regular : Bool

/-- Result of an exchange as the counters see it. -/
def linkOf : PlcResult Unit → Option Bool
  | .ok () => some true
  | .error e => if isWkcThreshold (.error e) then none else some false

/-- The first exchange of each turn is the regular one, and a turn that goes on ends with a cycle.
-/
def Shown.next (s : Shown) : LoopCall → Shown
  | .setOutputs outputs => { s with outputs := outputs }
  | .exchange result =>
    if s.regular then { s with results := s.results ++ (linkOf result).toList, regular := false }
    else s
  | .runCycle => { s with regular := true }
  | .getInputs _ | .enterFault _ | .shutdown => s

/-- Before the first call. -/
def Shown.start : Shown := ⟨[], .zero, true⟩

/-- What some calls show. -/
def shown (calls : List LoopCall) : Shown := calls.foldl Shown.next .start

/-- In a failure streak only zeros are handed over, and exchanges are made with zeros only. -/
def Shown.Allows (grace : Nat) (s : Shown) : LoopCall → Prop
  | .setOutputs outputs => Streak.Muted grace s.results → outputs = .zero
  | .exchange _ => Streak.Muted grace s.results → s.outputs = .zero
  | _ => True

/-- Every call is allowed when it is made. -/
def Silent (grace : Nat) (calls : List LoopCall) : Prop :=
  Passes Shown.next (Shown.Allows grace) .start calls

/-- The loop should fault for the fieldbus after some turns: the last exchange reports the
threshold, or the failures since the last window of successes have reached the limit. -/
def Setup.Trips (setup : Setup) (cycles : List Cycle) : Prop :=
  (∃ past cycle, cycles = past ++ [cycle] ∧ isWkcThreshold cycle.exchange = true) ∨
    Streak.FailuresSince setup.grace (links cycles) setup.limit

/-! ## Reading the calls -/

theorem Cycle.link_eq (cycle : Cycle) : cycle.link = linkOf cycle.exchange := by
  unfold Cycle.link linkOf
  cases cycle.exchange <;> rfl

theorem shown_append (calls more : List LoopCall) :
    shown (calls ++ more) = more.foldl Shown.next (shown calls) := List.foldl_append

theorem silent_append {grace : Nat} {calls more : List LoopCall} :
    Silent grace (calls ++ more) ↔
      Silent grace calls ∧ Passes Shown.next (Shown.Allows grace) (shown calls) more :=
  passes_append

/-- The calls of a run whose last regular exchange has been made, with the results up to it. -/
structure Exchanged (grace : Nat) (results : List Bool) (calls : List LoopCall) : Prop where
  results : (shown calls).results = results
  regular : (shown calls).regular = false
  silent : Silent grace calls
  faultless : ∀ state, LoopCall.enterFault state ∉ calls

section Calls

variable {grace : Nat} {results : List Bool} {calls : List LoopCall}

/-- Handing over and exchanging once more. Outside a failure streak the outputs may be any. -/
theorem Exchanged.again (h : Exchanged grace results calls) {outputs : FieldbusOutputs}
    (houtputs : Streak.Muted grace results → outputs = .zero) (result : PlcResult Unit) :
    Exchanged grace results (calls ++ [.setOutputs outputs, .exchange result]) ∧
      (shown (calls ++ [.setOutputs outputs, .exchange result])).outputs = outputs := by
  have hshown : shown (calls ++ [.setOutputs outputs, .exchange result]) =
      { shown calls with outputs := outputs } := by
    rw [shown_append]
    simp [Shown.next, h.regular]
  refine ⟨⟨?_, ?_, ?_, ?_⟩, by rw [hshown]⟩
  · rw [hshown]
    exact h.results
  · rw [hshown]
    exact h.regular
  · rw [silent_append]
    refine ⟨h.silent, ?_⟩
    simp only [passes_cons, passes_nil, Shown.Allows, Shown.next, h.results, and_true]
    exact ⟨houtputs, houtputs⟩
  · intro state hmem
    have hold : LoopCall.enterFault state ∈ calls := by simpa using hmem
    exact h.faultless state hold

/-- The calls of the logic half end the turn. -/
theorem Exchanged.logic (h : Exchanged grace results calls) (inputs : FieldbusInputs) :
    shown (calls ++ [.getInputs inputs, .runCycle]) = { shown calls with regular := true } ∧
      Silent grace (calls ++ [.getInputs inputs, .runCycle]) ∧
      ∀ state, LoopCall.enterFault state ∉ calls ++ [.getInputs inputs, .runCycle] := by
  refine ⟨by simp [shown_append, Shown.next], ?_, ?_⟩
  · rw [silent_append]
    exact ⟨h.silent, by simp [passes_cons, passes_nil, Shown.Allows]⟩
  · intro state hmem
    have hold : LoopCall.enterFault state ∈ calls := by simpa using hmem
    exact h.faultless state hold

/-- Faulting and shutting down hand over nothing. -/
theorem silent_fault {state : RuntimeState} (h : Silent grace calls) :
    Silent grace (calls ++ [.enterFault state]) := by
  rw [silent_append]
  exact ⟨h, by simp [passes_cons, passes_nil, Shown.Allows]⟩

end Calls

/-! ## A turn -/

section Turn

variable {setup : Setup} {past : List Cycle} {v : LoopState} {cycle : Cycle}

/-- The calls between two turns, against the turns so far. -/
structure Watching (setup : Setup) (past : List Cycle) (v : LoopState) : Prop
    extends Supervised setup past v where
  results : (shown v.calls).results = links past
  regular : (shown v.calls).regular = true
  zeros : Streak.Muted setup.grace (links past) → (shown v.calls).outputs = .zero
  silent : Silent setup.grace v.calls
  faultless : ∀ state, LoopCall.enterFault state ∉ v.calls
  untripped : ∀ front, front <+: past → ¬ setup.Trips front

/-- The regular exchange is made with zeros in a streak. -/
theorem Watching.sendOutputs (h : Watching setup past v) (cycle : Cycle) :
    Exchanged setup.grace (links (past ++ [cycle])) (v.sendOutputs cycle).calls ∧
      (Streak.Muted setup.grace (links past) →
        (shown (v.sendOutputs cycle).calls).outputs = .zero) := by
  have hmuted := h.toSupervised.muted_iff
  have hnew : links past ++ (linkOf cycle.exchange).toList = links (past ++ [cycle]) := by
    rw [links_concat, cycle.link_eq]
  rw [LoopState.sendOutputs]
  by_cases hstreak : v.inFailureStreak = true
  · have hshown : shown (v.calls ++ [.exchange cycle.exchange]) =
        ⟨links (past ++ [cycle]), (shown v.calls).outputs, false⟩ := by
      rw [shown_append]
      simp [Shown.next, h.regular, h.results, hnew]
    -- in a streak the device still holds the zeros of the first failure
    have hzeros := h.zeros (hmuted.mp hstreak)
    rw [if_pos hstreak, LoopState.call_calls, hshown]
    refine ⟨⟨by rw [hshown], by rw [hshown], ?_, ?_⟩, fun _ => hzeros⟩
    · rw [silent_append]
      refine ⟨h.silent, ?_⟩
      simp only [passes_cons, passes_nil, Shown.Allows, and_true]
      exact fun _ => hzeros
    · intro state hmem
      exact h.faultless state (by simpa using hmem)
  · -- outside a streak, the published outputs are handed over first
    have hidle : ¬ Streak.Muted setup.grace (links past) := mt hmuted.mpr hstreak
    have hcalls : (v.call [.setOutputs v.outputs]).calls ++ [.exchange cycle.exchange] =
        v.calls ++ [.setOutputs v.outputs, .exchange cycle.exchange] := by simp
    have hshown : shown (v.calls ++ [.setOutputs v.outputs, .exchange cycle.exchange]) =
        ⟨links (past ++ [cycle]), v.outputs, false⟩ := by
      rw [shown_append]
      simp [Shown.next, h.regular, h.results, hnew]
    rw [if_neg hstreak, LoopState.call_calls, hcalls, hshown]
    refine ⟨⟨by rw [hshown], by rw [hshown], ?_, ?_⟩, fun hmuted' => absurd hmuted' hidle⟩
    · rw [silent_append]
      refine ⟨h.silent, ?_⟩
      simp only [passes_cons, passes_nil, Shown.Allows, Shown.next, h.results, and_true]
      exact ⟨fun hmuted' => absurd hmuted' hidle, fun hmuted' => absurd hmuted' hidle⟩
    · intro state hmem
      exact h.faultless state (by simpa using hmem)

/-- A good exchange in a streak: the outputs of the logic are handed over only where it ends. -/
theorem Watching.recovering (h : Watching setup past v) (hexchange : cycle.exchange = .ok ())
    (hstreak : v.inFailureStreak = true) :
    Exchanged setup.grace (links (past ++ [cycle]))
        ((v.sendOutputs cycle).exchangeRecovered setup.failurePolicy cycle).calls ∧
      (Streak.Muted setup.grace (links (past ++ [cycle])) →
        (shown ((v.sendOutputs cycle).exchangeRecovered setup.failurePolicy
          cycle).calls).outputs = .zero) := by
  obtain ⟨hexchanged, hzeros⟩ := h.sendOutputs cycle
  have hmuted : ((v.sendOutputs cycle).exchangeRecovered setup.failurePolicy
      cycle).inFailureStreak = true ↔ Streak.Muted setup.grace (links (past ++ [cycle])) := by
    rw [(h.linked_recovering hexchange hstreak).counts.active]
    exact Streak.muted_iff
  unfold LoopState.exchangeRecovered at hmuted ⊢
  dsimp only at hmuted ⊢
  split at hmuted
  · next hend =>
    have hover : ¬ Streak.Muted setup.grace (links (past ++ [cycle])) := by simpa using hmuted
    rw [if_pos hend]
    refine ⟨?_, fun hmuted' => absurd hmuted' hover⟩
    exact (hexchanged.again (fun hmuted' => absurd hmuted' hover) _).1
  · next hend =>
    rw [if_neg hend]
    exact ⟨hexchanged, fun _ => hzeros (h.toSupervised.muted_iff.mp hstreak)⟩

/-- A good exchange outside a streak starts none. -/
theorem Watching.normal (h : Watching setup past v) (hexchange : cycle.exchange = .ok ())
    (hstreak : v.inFailureStreak = false) :
    ¬ Streak.Muted setup.grace (links (past ++ [cycle])) := by
  intro hmuted
  have hactive := (h.linked_normal hexchange hstreak).counts.active
  rw [LoopState.sendOutputs_inFailureStreak, hstreak] at hactive
  have hmuted' : (setup.streak (past ++ [cycle])).active = true := Streak.muted_iff.mpr hmuted
  simp [← hactive] at hmuted'

/-! ## The limit -/

theorem trips_wkc (h : isWkcThreshold cycle.exchange = true) : setup.Trips (past ++ [cycle]) :=
  .inl ⟨past, cycle, rfl, h⟩

theorem trips_iff_of_not_wkc (h : isWkcThreshold cycle.exchange = false) :
    setup.Trips (past ++ [cycle]) ↔ (setup.streak (past ++ [cycle])).failures = setup.limit := by
  constructor
  · rintro (⟨front, last, heq, hwkc⟩ | hsince)
    · obtain rfl : cycle = last := by simpa using (List.append_inj' heq rfl).2
      simp [h] at hwkc
    · exact Streak.failuresSince_iff.mp hsince
  · intro heq
    exact .inr (Streak.failuresSince_iff.mpr heq)

theorem not_trips_nil (hlimit : 0 < setup.limit) : ¬ setup.Trips [] := by
  rintro (⟨front, last, heq, -⟩ | hsince)
  · simp at heq
  · have hcount : 0 = setup.limit := Streak.failuresSince_iff.mp hsince
    omega

/-- A turn that goes on to the logic has not tripped. -/
theorem Linked.not_trips (h : Linked setup past cycle v) (hlimit : 0 < setup.limit)
    (hwkc : isWkcThreshold cycle.exchange = false) : ¬ setup.Trips (past ++ [cycle]) := by
  rw [trips_iff_of_not_wkc hwkc]
  have hbelow := h.below hlimit
  omega

/-- The count grows by at most one, so it meets the limit where it reaches it. -/
theorem Watching.trips_gaveUp (h : Watching setup past v) {e : PlcError}
    (hexchange : cycle.exchange = .error e) (hwkc : isWkcThreshold (.error e) = false)
    (hlimit : ((v.sendOutputs cycle).exchangeFailed cycle).limitReached setup.failurePolicy =
      true) :
    setup.Trips (past ++ [cycle]) := by
  obtain ⟨hpos, hle⟩ := (h.limitReached_iff hexchange hwkc).mp hlimit
  have hbelow := h.below hpos
  have hfail : (setup.streak (past ++ [cycle])).failures = (setup.streak past).failures + 1 := by
    rw [streak_failed hexchange hwkc]
    rfl
  rw [trips_iff_of_not_wkc (hexchange ▸ hwkc)]
  omega

/-! ## What a turn shows -/

/-- The calls after a turn: what they show, and the fault. -/
structure Judged (setup : Setup) (past : List Cycle) (cycle : Cycle) (v : LoopState) : Prop where
  silent : Silent setup.grace v.calls
  results : (shown v.calls).results = links (reached (past ++ [cycle]))
  fault : LoopCall.enterFault .fault ∈ v.calls ↔ setup.Trips (reached (past ++ [cycle]))
  early : ∀ front, front <+: reached (past ++ [cycle]) → front ≠ reached (past ++ [cycle]) →
    ¬ setup.Trips front

theorem Watching.reached_concat (h : Watching setup past v)
    (hstop : cycle.shutdownRequested = false) :
    reached (past ++ [cycle]) = past ++ [cycle] :=
  reached_concat_live h.live hstop

/-- Before a turn is over, no earlier one has tripped. -/
theorem Watching.early (h : Watching setup past v) {front : List Cycle}
    (hfront : front <+: past ++ [cycle]) (hne : front ≠ past ++ [cycle]) : ¬ setup.Trips front := by
  rcases List.prefix_concat_iff.mp hfront with heq | hpast
  · exact absurd heq hne
  · exact h.untripped front hpast

/-- A turn that ends with a fault. -/
theorem Watching.judged_fault (h : Watching setup past v) {v' : LoopState}
    (hstop : cycle.shutdownRequested = false)
    (hexchanged : Exchanged setup.grace (links (past ++ [cycle])) v'.calls)
    (hscheduler : v'.scheduler = v.scheduler) (htrips : setup.Trips (past ++ [cycle])) :
    Judged setup past cycle v'.enterFault := by
  have hstate : v'.scheduler.enterFault.state.current = .fault := by
    rw [hscheduler, Scheduler.enterFault_state, StateMachine.enterFault, h.ready.running]
    rfl
  have hcalls : v'.enterFault.calls = v'.calls ++ [.enterFault .fault] := by
    rw [LoopState.enterFault, hstate]
    rfl
  have hreached := h.reached_concat hstop
  refine ⟨?_, ?_, ?_, ?_⟩
  · rw [hcalls]
    exact silent_fault hexchanged.silent
  · rw [hcalls, hreached, shown_append, ← hexchanged.results]
    rfl
  · rw [hcalls, hreached]
    simp [htrips]
  · rw [hreached]
    exact fun front => h.early

/-- A turn that gets to the logic. -/
theorem Watching.judged_linked (h : Watching setup past v) (hlimit : 0 < setup.limit)
    {v' : LoopState}
    (hstop : cycle.shutdownRequested = false) (hlinked : Linked setup past cycle v')
    (hexchanged : Exchanged setup.grace (links (past ++ [cycle])) v'.calls)
    (hwkc : isWkcThreshold cycle.exchange = false) :
    Judged setup past cycle (v'.logicCycle setup.maxCycles cycle).state := by
  have hcalls := (hlinked.ready.logicCycle cycle).1.calls
  obtain ⟨hshown, hsilent, hfaultless⟩ := hexchanged.logic cycle.inputs
  have hreached := h.reached_concat hstop
  have hnot := hlinked.not_trips hlimit hwkc
  refine ⟨?_, ?_, ?_, ?_⟩
  · rw [hcalls]
    exact hsilent
  · rw [hcalls, hreached, hshown, ← hexchanged.results]
  · rw [hcalls, hreached]
    exact iff_of_false (hfaultless _) hnot
  · rw [hreached]
    exact fun front => h.early

/-- Every turn is judged rightly. -/
theorem Watching.judged (h : Watching setup past v) (hlimit : 0 < setup.limit) (cycle : Cycle) :
    Judged setup past cycle (v.turn setup cycle).state := by
  obtain ⟨hexchanged, hzeros⟩ := h.sendOutputs cycle
  cases LoopState.turn_cases setup v cycle with
  | stopped hstop heq =>
    have hreached : reached (past ++ [cycle]) = past := by
      rw [reached_concat_stop hstop, reached_eq_self h.live]
    rw [heq]
    refine ⟨h.silent, ?_, ?_, ?_⟩
    · rw [hreached]
      exact h.results
    · rw [hreached]
      exact iff_of_false (h.faultless _) (h.untripped past (List.prefix_refl past))
    · rw [hreached]
      exact fun front hfront _ => h.untripped front hfront
  | wkcFault hstop hwkc heq =>
    rw [heq]
    exact h.judged_fault hstop hexchanged (sendOutputs_scheduler v cycle) (trips_wkc hwkc)
  | gaveUp hstop e hexchange hwkc hreachedLimit heq =>
    rw [heq]
    exact h.judged_fault hstop (hexchanged.again (fun _ => rfl) cycle.safeExchange).1
      (sendOutputs_scheduler v cycle) (h.trips_gaveUp hexchange hwkc hreachedLimit)
  | failed hstop e hexchange hwkc hbelow heq =>
    rw [heq]
    exact h.judged_linked hlimit hstop (h.linked_failed hexchange hwkc hbelow)
      (hexchanged.again (fun _ => rfl) cycle.safeExchange).1 (hexchange ▸ hwkc)
  | recovering hstop hexchange hstreak heq =>
    rw [heq]
    exact h.judged_linked hlimit hstop (h.linked_recovering hexchange hstreak)
      (h.recovering hexchange hstreak).1 (isWkcThreshold_ok hexchange)
  | normal hstop hexchange hstreak heq =>
    rw [heq]
    exact h.judged_linked hlimit hstop (h.linked_normal hexchange hstreak) hexchanged
      (isWkcThreshold_ok hexchange)

/-- The invariant after the logic half of a turn. -/
theorem Watching.linked (h : Watching setup past v) (hlimit : 0 < setup.limit) {v' v'' : LoopState}
    (hlinked : Linked setup past cycle v')
    (hexchanged : Exchanged setup.grace (links (past ++ [cycle])) v'.calls)
    (hzeros : Streak.Muted setup.grace (links (past ++ [cycle])) → (shown v'.calls).outputs = .zero)
    (hwkc : isWkcThreshold cycle.exchange = false)
    (hnext : v'.logicCycle setup.maxCycles cycle = .next v'')
    (hsup : Supervised setup (past ++ [cycle]) v'') : Watching setup (past ++ [cycle]) v'' := by
  have hcalls := (hlinked.ready.logicCycle cycle).1.calls
  rw [hnext] at hcalls
  have hcalls' : v''.calls = v'.calls ++ [.getInputs cycle.inputs, .runCycle] := hcalls
  obtain ⟨hshown, hsilent, hfaultless⟩ := hexchanged.logic cycle.inputs
  refine ⟨hsup, ?_, ?_, ?_, ?_, ?_, ?_⟩
  · rw [hcalls', hshown, ← hexchanged.results]
  · rw [hcalls', hshown]
  · rw [hcalls', hshown]
    exact hzeros
  · rw [hcalls']
    exact hsilent
  · rw [hcalls']
    exact hfaultless
  · intro front hfront
    rcases List.prefix_concat_iff.mp hfront with heq | hpast
    · rw [heq]
      exact hlinked.not_trips hlimit hwkc
    · exact h.untripped front hpast

/-- A turn that lets the loop go on keeps the invariant. -/
theorem watching_turn (hlimit : 0 < setup.limit) {v' : LoopState} (h : Watching setup past v)
    (hnext : v.turn setup cycle = .next v') : Watching setup (past ++ [cycle]) v' := by
  have hsup := supervised_turn h.toSupervised hnext
  obtain ⟨hexchanged, hzeros⟩ := h.sendOutputs cycle
  cases LoopState.turn_cases setup v cycle with
  | stopped _ heq | wkcFault _ _ heq | gaveUp _ _ _ _ _ heq =>
    rw [heq] at hnext
    simp at hnext
  | failed _ e hexchange hwkc hbelow heq =>
    obtain ⟨hagain, houtputs⟩ := hexchanged.again (fun _ => rfl) cycle.safeExchange
    exact h.linked hlimit (h.linked_failed hexchange hwkc hbelow) hagain (fun _ => houtputs)
      (hexchange ▸ hwkc) (heq ▸ hnext) hsup
  | recovering _ hexchange hstreak heq =>
    obtain ⟨hrecovered, houtputs⟩ := h.recovering hexchange hstreak
    exact h.linked hlimit (h.linked_recovering hexchange hstreak) hrecovered houtputs
      (isWkcThreshold_ok hexchange) (heq ▸ hnext) hsup
  | normal _ hexchange hstreak heq =>
    exact h.linked hlimit (h.linked_normal hexchange hstreak) hexchanged
      (fun hmuted => absurd hmuted (h.normal hexchange hstreak)) (isWkcThreshold_ok hexchange)
      (heq ▸ hnext) hsup

end Turn

/-! ## The whole run -/

/-- The shutdown shows nothing. -/
theorem Judged.shutDown {setup : Setup} {past : List Cycle} {cycle : Cycle} {v : LoopState}
    (h : Judged setup past cycle v) : Judged setup past cycle v.shutDown := by
  have hcalls : v.shutDown.calls = v.calls ++ [.shutdown] := rfl
  refine ⟨?_, ?_, ?_, h.early⟩
  · rw [hcalls, silent_append]
    exact ⟨h.silent, by simp [passes_cons, passes_nil, Shown.Allows]⟩
  · rw [hcalls, shown_append]
    exact h.results
  · rw [hcalls, ← h.fault]
    simp

/-- In a run with a failure limit, over the turns it has used: zeros are handed over, and exchanges
made with zeros, from a failure to the end of the next window of successes; the loop faults for the
fieldbus exactly when the last turn reports the threshold or brings the failures since the last
window to the limit, and no earlier turn does. -/
theorem supervision {setup : Setup} {world : World} {used : List Cycle} (hlimit : 0 < setup.limit)
    (hused : world.cycles = used ++ (runSchedulerLoop setup world).unused world.cycles) :
    Silent setup.grace (runSchedulerLoop setup world).calls ∧
      (shown (runSchedulerLoop setup world).calls).results = links (reached used) ∧
      (LoopCall.enterFault .fault ∈ (runSchedulerLoop setup world).calls ↔
        setup.Trips (reached used)) ∧
      ∀ front, front <+: reached used → front ≠ reached used → ¬ setup.Trips front := by
  rcases runSchedulerLoop_cases setup world with ⟨context, e, hfailed⟩ | ⟨start, hsup, hcalls, hrun⟩
  · -- the startup fails, and no turn is made
    rw [hfailed] at hused ⊢
    have hnil : used = [] := List.append_left_eq_self.mp hused.symm
    rw [hnil]
    exact ⟨passes_nil, rfl, iff_of_false (by simp [Run.calls]) (not_trips_nil hlimit),
      fun front hfront hne => absurd (List.prefix_nil.mp hfront) hne⟩
  · have hwatching : Watching setup [] start := by
      refine ⟨hsup, ?_, ?_, fun _ => ?_, ?_, ?_, fun front hfront => ?_⟩
      · rw [hcalls]
        rfl
      · rw [hcalls]
        rfl
      · rw [hcalls]
        rfl
      · rw [hcalls]
        exact passes_nil
      · simp [hcalls]
      · rw [List.prefix_nil.mp hfront]
        exact not_trips_nil hlimit
    rw [hrun] at hused ⊢
    rcases LoopState.mainLoop_rule (fun _ _ hs => hs.ready.running)
      (fun _ _ _ _ hs hnext => watching_turn hlimit hs hnext) world.cycles [] start hwatching with
      ⟨v', heq, hs⟩ | ⟨front, cycle, unused, v', v'', hsplit, heq, hs, hleave⟩
    · rw [heq] at hused ⊢
      -- the loop has used all turns
      have hall : world.cycles = used := by simpa [Run.unused] using hused
      rw [List.nil_append] at hs
      rw [← hall, reached_eq_self hs.live]
      exact ⟨hs.silent, hs.results, iff_of_false (hs.faultless _) (hs.untripped _ List.prefix_rfl),
        fun front hfront _ => hs.untripped front hfront⟩
    · rw [heq] at hused ⊢
      -- the loop has left at its last turn
      have hsame : used = front ++ [cycle] := by
        have hsplit' : used ++ unused = front ++ [cycle] ++ unused := by
          rw [List.append_assoc, List.singleton_append, ← hsplit]
          exact hused.symm
        exact List.append_cancel_right hsplit'
      have hjudged := hs.judged hlimit cycle
      rw [hleave, List.nil_append] at hjudged
      have hdone := hjudged.shutDown
      rw [hsame]
      exact ⟨hdone.silent, hdone.results, hdone.fault, hdone.early⟩

/-- A turn whose exchange fails. -/
def lampTimeout : Cycle := { lampCycle with exchange := .error (.fieldbusError "timeout") }

/-- Two failures, a good exchange and three failures: the last one reaches the limit of three. -/
theorem supervision_lamp :
    LoopCall.enterFault .fault ∈ (runSchedulerLoop { lampSetup .allOff with maxCycles := 0 }
      (lampWorld [lampTimeout, lampTimeout, lampCycle, lampTimeout, lampTimeout,
        lampTimeout])).calls :=
  (@supervision { lampSetup .allOff with maxCycles := 0 }
    (lampWorld [lampTimeout, lampTimeout, lampCycle, lampTimeout, lampTimeout, lampTimeout])
    [lampTimeout, lampTimeout, lampCycle, lampTimeout, lampTimeout, lampTimeout]
    (by decide) rfl).2.2.1.mpr (.inr (by decide))

end VirtualPlc.Daemon
