import VirtualPlc.Daemon.Supervision

/-!
# What the driver is left with

After the loop the scheduler publishes the safe outputs, but nothing sends them. `delivered_iff`:
the driver is left with the safe image exactly when the outputs it was last given happen to be that
image.
-/

set_option autoImplicit false

namespace VirtualPlc.Daemon

open VirtualPlc.Runtime VirtualPlc.Control

/-- The outputs handed over last, with an exchange after that. -/
def LastSent (calls : List LoopCall) (outputs : FieldbusOutputs) : Prop :=
  ∃ before between, calls = before ++ .setOutputs outputs :: between ∧
    (∀ other, .setOutputs other ∉ between) ∧ ∃ result, .exchange result ∈ between

/-- Before the shutdown, the driver was last given the safe image, and exchanged it. -/
def Delivered (v : LoopState) : Prop :=
  ∃ calls, v.calls = calls ++ [.shutdown] ∧
    LastSent calls (v.scheduler.faultPolicy.safeOutputs.safeImage v.scheduler.lastStep)

/-! ## The condition -/

/-- The failure limit is set, and so many failures lie in one streak. -/
def Setup.GivesUp (setup : Setup) (cycles : List Cycle) : Prop :=
  0 < setup.limit ∧ ∃ piece, piece <:+ links cycles ∧ Streak.Unbroken setup.grace piece ∧
    setup.limit ≤ piece.count false

theorem givesUp_iff {setup : Setup} {cycles : List Cycle} :
    setup.GivesUp cycles ↔ 0 < setup.limit ∧ setup.limit ≤ (setup.streak cycles).failures :=
  and_congr_right fun _ => Streak.le_failures_iff.symm

instance (setup : Setup) (cycles : List Cycle) : Decidable (setup.GivesUp cycles) :=
  decidable_of_iff _ givesUp_iff.symm

/-- The last turn ends before its step: at a threshold report, at the failure limit, or because the
watchdog has seen a timeout. -/
def Setup.CutShort (setup : Setup) (past : List Cycle) (cycle : Cycle) : Prop :=
  isWkcThreshold cycle.exchange = true ∨
    cycle.link = some false ∧ setup.GivesUp (past ++ [cycle]) ∨ cycle.events.timedOut = true

instance (setup : Setup) (past : List Cycle) (cycle : Cycle) :
    Decidable (setup.CutShort past cycle) :=
  inferInstanceAs (Decidable (_ ∨ _ ∧ _ ∨ _))

/-- Outputs of the last successful step up to a last turn. -/
def Setup.finalStep (setup : Setup) (past : List Cycle) (cycle : Cycle) : FieldbusOutputs :=
  if setup.CutShort past cycle then latest past else latest (past ++ [cycle])

/-- Outputs the driver is given last: zeros in a failure streak, otherwise those of the last
successful step before the last turn. -/
def Setup.handed (setup : Setup) (past : List Cycle) (cycle : Cycle) : FieldbusOutputs :=
  if Streak.Muted setup.grace (links (past ++ [cycle])) then .zero else latest past

/-- Turns that get to the exchange. -/
def reached (cycles : List Cycle) : List Cycle :=
  cycles.filter fun cycle => !cycle.shutdownRequested

/-- A turn gets to the exchange, and what the driver is given last is the safe image. -/
def Setup.Settled (setup : Setup) (cycles : List Cycle) : Prop :=
  ∃ past cycle, reached cycles = past ++ [cycle] ∧ setup.handed past cycle =
    setup.config.faultPolicy.safeOutputs.safeImage (setup.finalStep past cycle)

/-! ## Calls -/

/-- The outputs of a call that hands some over. -/
def LoopCall.outputs? : LoopCall → Option FieldbusOutputs
  | .setOutputs outputs => some outputs
  | _ => none

theorem filterMap_outputs_eq_nil {calls : List LoopCall}
    (h : ∀ outputs, LoopCall.setOutputs outputs ∉ calls) :
    calls.filterMap LoopCall.outputs? = [] := by
  refine List.filterMap_eq_nil_iff.mpr fun call hmem => ?_
  cases call with
  | setOutputs outputs => exact absurd hmem (h outputs)
  | exchange result | getInputs inputs | runCycle | enterFault state | shutdown => rfl

namespace LastSent

variable {calls : List LoopCall} {outputs other : FieldbusOutputs}

theorem unique (h : LastSent calls outputs) (h' : LastSent calls other) : outputs = other := by
  have key : ∀ {image}, LastSent calls image →
      (calls.filterMap LoopCall.outputs?).getLast? = some image := by
    rintro image ⟨before, between, rfl, hnone, -⟩
    simp [filterMap_outputs_eq_nil hnone, LoopCall.outputs?]
  exact Option.some.inj ((key h).symm.trans (key h'))

theorem not_nil : ¬ LastSent [] outputs := by
  rintro ⟨before, between, hcalls, -⟩
  simp at hcalls

/-- Calls that hand over nothing change nothing. -/
theorem append (h : LastSent calls outputs) {more : List LoopCall}
    (hmore : ∀ other, .setOutputs other ∉ more) : LastSent (calls ++ more) outputs := by
  obtain ⟨before, between, rfl, hnone, result, hmem⟩ := h
  refine ⟨before, between ++ more, by simp, fun other hother => ?_, result,
    List.mem_append_left more hmem⟩
  rcases List.mem_append.mp hother with hb | hm
  · exact hnone other hb
  · exact hmore other hm

/-- Handing over and exchanging. -/
theorem send (calls : List LoopCall) (outputs : FieldbusOutputs) (result : PlcResult Unit) :
    LastSent (calls ++ [.setOutputs outputs, .exchange result]) outputs :=
  ⟨calls, [.exchange result], rfl, by simp, result, by simp⟩

end LastSent

/-! ## What each turn sends -/

section Turn

variable {setup : Setup} {past : List Cycle} {v : LoopState} {cycle : Cycle}

/-- What the driver was last given between two turns. -/
structure Sent (setup : Setup) (past : List Cycle) (v : LoopState) : Prop
    extends Supervised setup past v where
  none : past = [] → v.calls = []
  sent : ∀ front last, past = front ++ [last] → LastSent v.calls (setup.handed front last)
  complete : ∀ front last, past = front ++ [last] → ¬ setup.CutShort front last

theorem Supervised.muted_iff (h : Supervised setup past v) :
    v.inFailureStreak = true ↔ Streak.Muted setup.grace (links past) := by
  rw [h.counts.active]
  exact Streak.muted_iff

/-- The regular exchange hands over the published outputs, except in a failure streak. -/
theorem Sent.sendOutputs (h : Sent setup past v) (cycle : Cycle) :
    LastSent (v.sendOutputs cycle).calls
      (if Streak.Muted setup.grace (links past) then .zero else latest past) := by
  unfold LoopState.sendOutputs
  by_cases hstreak : v.inFailureStreak = true
  · rw [if_pos hstreak, if_pos (h.muted_iff.mp hstreak)]
    -- the zeros of the last failure are still the driver's outputs
    obtain ⟨front, last, hpast⟩ : ∃ front last, past = front ++ [last] := by
      rcases List.eq_nil_or_concat past with rfl | ⟨front, last, hpast⟩
      · have hidle := h.muted_iff.mp hstreak
        obtain ⟨before, k, hnil, -⟩ := hidle
        simp [links] at hnil
      · exact ⟨front, last, by simpa using hpast⟩
    have hsent := h.sent front last hpast
    rw [Setup.handed, ← hpast, if_pos (h.muted_iff.mp hstreak)] at hsent
    exact hsent.append (by simp)
  · rw [if_neg hstreak, if_neg (mt h.muted_iff.mpr hstreak)]
    have hpublished : v.outputs = latest past := h.ready.published
    have hsend := LastSent.send v.calls (latest past) cycle.exchange
    simpa [LoopState.call, hpublished] using hsend

theorem sent_failed {e : PlcError} (hexchange : cycle.exchange = .error e)
    (hwkc : isWkcThreshold (.error e) = false) :
    LastSent (v.exchangeFailed cycle).calls (setup.handed past cycle) := by
  have hmuted : Streak.Muted setup.grace (links (past ++ [cycle])) := by
    refine ⟨links past, 0, ?_, Streak.window_pos _⟩
    simp [Cycle.link_failed hexchange hwkc]
  rw [Setup.handed, if_pos hmuted]
  exact LastSent.send v.calls .zero cycle.safeExchange

theorem Sent.normal (h : Sent setup past v) (hexchange : cycle.exchange = .ok ())
    (hstreak : v.inFailureStreak = false) :
    LastSent (v.sendOutputs cycle).calls (setup.handed past cycle) := by
  have hlinked := h.linked_normal hexchange hstreak
  have hold : ¬ Streak.Muted setup.grace (links past) := mt h.muted_iff.mpr (by simp [hstreak])
  have hnew : ¬ Streak.Muted setup.grace (links (past ++ [cycle])) := by
    intro hmuted
    have hactive := hlinked.counts.active.trans (Streak.muted_iff.mpr hmuted)
    simp [hstreak] at hactive
  have hsent := h.sendOutputs cycle
  rw [if_neg hold] at hsent
  rwa [Setup.handed, if_neg hnew]

theorem Sent.recovering (h : Sent setup past v) (hexchange : cycle.exchange = .ok ())
    (hstreak : v.inFailureStreak = true) :
    LastSent ((v.sendOutputs cycle).exchangeRecovered setup.failurePolicy cycle).calls
      (setup.handed past cycle) := by
  have hactive := (h.linked_recovering hexchange hstreak).counts.active
  have hiff : ((v.sendOutputs cycle).exchangeRecovered setup.failurePolicy cycle).inFailureStreak =
      true ↔ Streak.Muted setup.grace (links (past ++ [cycle])) := by
    rw [hactive]
    exact Streak.muted_iff
  have hsent := h.sendOutputs cycle
  rw [if_pos (h.muted_iff.mp hstreak)] at hsent
  have hpublished : (v.sendOutputs cycle).outputs = latest past := by
    rw [LoopState.outputs, sendOutputs_scheduler]
    exact h.ready.published
  unfold LoopState.exchangeRecovered at hiff ⊢
  dsimp only at hiff ⊢
  split at hiff
  · next hend =>
    -- the streak ends here, and the published outputs are sent
    have hnew : ¬ Streak.Muted setup.grace (links (past ++ [cycle])) := by simpa using hiff
    rw [if_pos hend, Setup.handed, if_neg hnew, hpublished]
    exact LastSent.send _ _ _
  · next hend =>
    have hnew : Streak.Muted setup.grace (links (past ++ [cycle])) :=
      hiff.mp (by simpa using hstreak)
    rw [if_neg hend, Setup.handed, if_pos hnew]
    exact hsent

theorem Sent.wkcFault (h : Sent setup past v) (hwkc : isWkcThreshold cycle.exchange = true) :
    LastSent (v.sendOutputs cycle).enterFault.calls (setup.handed past cycle) := by
  have hlinks : links (past ++ [cycle]) = links past := by simp [Cycle.link_wkc hwkc]
  rw [Setup.handed, hlinks]
  exact (h.sendOutputs cycle).append (by simp)

/-- The logic half hands over nothing. -/
theorem LastSent.logicCycle {outputs latest : FieldbusOutputs}
    (h : LastSent v.calls outputs) (hready : Ready setup v.scheduler latest) (cycle : Cycle) :
    LastSent (v.logicCycle setup.maxCycles cycle).state.calls outputs := by
  rw [(hready.logicCycle cycle).1.calls]
  exact h.append (by simp)

/-- A turn that goes on has not been cut short. -/
theorem Linked.complete (h : Linked setup past cycle v)
    (hwkc : isWkcThreshold cycle.exchange = false) (htime : cycle.events.timedOut = false) :
    ¬ setup.CutShort past cycle := by
  rintro (hcut | ⟨-, hgives⟩ | hcut)
  · simp [hwkc] at hcut
  · obtain ⟨hpos, hle⟩ := givesUp_iff.mp hgives
    exact absurd (h.below hpos) (Nat.not_lt.mpr hle)
  · simp [htime] at hcut

theorem Linked.sent {v' : LoopState} (hlinked : Linked setup past cycle v) (hsent : LastSent v.calls
    (setup.handed past cycle)) (hwkc : isWkcThreshold cycle.exchange = false)
    (hnext : v.logicCycle setup.maxCycles cycle = .next v')
    (hsup : Supervised setup (past ++ [cycle]) v') : Sent setup (past ++ [cycle]) v' := by
  have hcalls := hsent.logicCycle hlinked.ready cycle
  obtain ⟨-, -, htime, -⟩ := (hlinked.ready.logicCycle cycle).2 v' hnext
  rw [hnext] at hcalls
  refine ⟨hsup, by simp, fun front last heq => ?_, fun front last heq => ?_⟩ <;>
    obtain ⟨rfl, hlast⟩ := List.append_inj' heq rfl <;>
    obtain rfl : cycle = last := by simpa using hlast
  · exact hcalls
  · exact hlinked.complete hwkc htime

theorem isWkcThreshold_ok {result : PlcResult Unit} (h : result = .ok ()) :
    isWkcThreshold result = false := by
  rw [h]
  rfl

/-- A turn that lets the loop go on keeps what is known about the driver. -/
theorem sent_turn {v' : LoopState} (h : Sent setup past v)
    (hnext : v.turn setup cycle = .next v') : Sent setup (past ++ [cycle]) v' := by
  have hsup := supervised_turn h.toSupervised hnext
  cases LoopState.turn_cases setup v cycle with
  | stopped _ heq | wkcFault _ _ heq | gaveUp _ _ _ _ _ heq =>
    rw [heq] at hnext
    simp at hnext
  | failed _ e hexchange hwkc hlimit heq =>
    exact (h.linked_failed hexchange hwkc hlimit).sent (sent_failed hexchange hwkc)
      (hexchange ▸ hwkc) (heq ▸ hnext) hsup
  | recovering _ hexchange hstreak heq =>
    exact (h.linked_recovering hexchange hstreak).sent (h.recovering hexchange hstreak)
      (isWkcThreshold_ok hexchange) (heq ▸ hnext) hsup
  | normal _ hexchange hstreak heq =>
    exact (h.linked_normal hexchange hstreak).sent (h.normal hexchange hstreak)
      (isWkcThreshold_ok hexchange) (heq ▸ hnext) hsup

/-! ## The last turn -/

/-- The variables after the turn that ends the loop. -/
structure Left (setup : Setup) (past : List Cycle) (cycle : Cycle) (v : LoopState) : Prop where
  live : ∀ cycle ∈ past, cycle.shutdownRequested = false
  stop : cycle.shutdownRequested = false
  sent : LastSent v.calls (setup.handed past cycle)
  policy : v.scheduler.faultPolicy = setup.config.faultPolicy
  lastStep : v.scheduler.lastStep = setup.finalStep past cycle

/-- A last turn that gets to the logic. -/
theorem Linked.left {v' : LoopState} (hlinked : Linked setup past cycle v)
    (hlive : ∀ cycle ∈ past, cycle.shutdownRequested = false)
    (hstop : cycle.shutdownRequested = false) (hsent : LastSent v.calls (setup.handed past cycle))
    (hwkc : isWkcThreshold cycle.exchange = false)
    (hleave : v.logicCycle setup.maxCycles cycle = .leave v') : Left setup past cycle v' := by
  have hcalls := hsent.logicCycle hlinked.ready cycle
  have hdone := (hlinked.ready.logicCycle cycle).1
  rw [hleave] at hcalls hdone
  refine ⟨hlive, hstop, hcalls, hdone.policy, ?_⟩
  have hlast : v'.scheduler.lastStep = cycle.outputsAfter (latest past) := hdone.lastStep
  rw [hlast, Setup.finalStep]
  cases htime : cycle.events.timedOut with
  | true =>
    rw [if_pos (show setup.CutShort past cycle from .inr (.inr htime)), Cycle.outputsAfter, htime,
      if_pos rfl]
  | false => rw [if_neg (hlinked.complete hwkc htime), latest_concat htime]

/-- A turn that ends the loop: the shutdown flag, or a turn that gets to the exchange. -/
theorem left_turn {v' : LoopState} (h : Sent setup past v)
    (hleave : v.turn setup cycle = .leave v') :
    cycle.shutdownRequested = true ∧ v' = v ∨ Left setup past cycle v' := by
  have hscheduler := sendOutputs_scheduler v cycle
  cases LoopState.turn_cases setup v cycle with
  | stopped hstop heq =>
    rw [heq] at hleave
    injection hleave with hv
    exact .inl ⟨hstop, hv.symm⟩
  | wkcFault hstop hwkc heq =>
    rw [heq] at hleave
    injection hleave with hv
    subst hv
    refine .inr ⟨h.live, hstop, h.wkcFault hwkc, ?_, ?_⟩
    · simpa [LoopState.enterFault, hscheduler] using h.ready.policy
    · rw [Setup.finalStep, if_pos (show setup.CutShort past cycle from .inl hwkc)]
      simpa [LoopState.enterFault, hscheduler] using h.ready.lastStep
  | gaveUp hstop e hexchange hwkc hlimit heq =>
    rw [heq] at hleave
    injection hleave with hv
    subst hv
    -- the cycle that gives up runs no step any more
    have hcut : setup.CutShort past cycle := by
      refine .inr (.inl ⟨Cycle.link_failed hexchange hwkc, givesUp_iff.mpr ?_⟩)
      exact (h.limitReached_iff hexchange hwkc).mp hlimit
    refine .inr ⟨h.live, hstop, (sent_failed hexchange hwkc).append (by simp), ?_, ?_⟩
    · simpa [LoopState.enterFault, LoopState.exchangeFailed, hscheduler] using h.ready.policy
    · rw [Setup.finalStep, if_pos hcut]
      simpa [LoopState.enterFault, LoopState.exchangeFailed, hscheduler] using h.ready.lastStep
  | failed hstop e hexchange hwkc hlimit heq =>
    exact .inr ((h.linked_failed hexchange hwkc hlimit).left h.live hstop
      (sent_failed hexchange hwkc) (hexchange ▸ hwkc) (heq ▸ hleave))
  | recovering hstop hexchange hstreak heq =>
    exact .inr ((h.linked_recovering hexchange hstreak).left h.live hstop
      (h.recovering hexchange hstreak) (isWkcThreshold_ok hexchange) (heq ▸ hleave))
  | normal hstop hexchange hstreak heq =>
    exact .inr ((h.linked_normal hexchange hstreak).left h.live hstop
      (h.normal hexchange hstreak) (isWkcThreshold_ok hexchange) (heq ▸ hleave))

end Turn

/-! ## The whole run -/

theorem reached_eq_self {cycles : List Cycle}
    (h : ∀ cycle ∈ cycles, cycle.shutdownRequested = false) : reached cycles = cycles := by
  refine List.filter_eq_self.mpr fun cycle hmem => ?_
  simp [h cycle hmem]

theorem reached_concat_live {cycles : List Cycle} {cycle : Cycle}
    (hlive : ∀ other ∈ cycles, other.shutdownRequested = false)
    (hstop : cycle.shutdownRequested = false) :
    reached (cycles ++ [cycle]) = cycles ++ [cycle] := by
  apply reached_eq_self
  intro other hmem
  rcases List.mem_append.mp hmem with hpast | hlast
  · exact hlive other hpast
  · rw [List.mem_singleton.mp hlast]
    exact hstop

@[simp] theorem reached_concat_stop {cycles : List Cycle} {cycle : Cycle}
    (h : cycle.shutdownRequested = true) : reached (cycles ++ [cycle]) = reached cycles := by
  simp [reached, h]

/-- The shutdown sends nothing and takes no step. -/
theorem delivered_shutDown {v : LoopState} {outputs : FieldbusOutputs}
    (h : LastSent v.calls outputs) :
    Delivered v.shutDown ↔
      outputs = v.scheduler.faultPolicy.safeOutputs.safeImage v.scheduler.lastStep := by
  have hpolicy : v.shutDown.scheduler.faultPolicy = v.scheduler.faultPolicy :=
    v.scheduler.stop_faultPolicy
  have hlast : v.shutDown.scheduler.lastStep = v.scheduler.lastStep := v.scheduler.lastStep_stop
  constructor
  · rintro ⟨calls, hcalls, hsent⟩
    have hsame : v.calls = calls := (List.append_inj' hcalls rfl).1
    rw [hpolicy, hlast, ← hsame] at hsent
    exact h.unique hsent
  · intro heq
    refine ⟨v.calls, rfl, ?_⟩
    rw [hpolicy, hlast, ← heq]
    exact h

theorem Left.delivered {setup : Setup} {past : List Cycle} {cycle : Cycle} {v : LoopState}
    (h : Left setup past cycle v) : Delivered v.shutDown ↔ setup.Settled (past ++ [cycle]) := by
  have hreached := reached_concat_live h.live h.stop
  rw [delivered_shutDown h.sent, h.policy, h.lastStep]
  constructor
  · exact fun heq => ⟨past, cycle, hreached, heq⟩
  · rintro ⟨past', cycle', hsplit, heq⟩
    obtain ⟨rfl, hlast⟩ := List.append_inj' (hreached.symm.trans hsplit) rfl
    obtain rfl : cycle = cycle' := by simpa using hlast
    exact heq

/-- A run that the shutdown flag ends delivers what the turns before it have left. -/
theorem Sent.delivered {setup : Setup} {past : List Cycle} {v : LoopState}
    (h : Sent setup past v) : Delivered v.shutDown ↔ setup.Settled past := by
  have hreached := reached_eq_self h.live
  rcases List.eq_nil_or_concat past with rfl | ⟨front, last, hpast⟩
  · constructor
    · rintro ⟨calls, hcalls, hsent⟩
      have hsame : v.calls = calls := (List.append_inj' hcalls rfl).1
      rw [← hsame, h.none rfl] at hsent
      exact absurd hsent LastSent.not_nil
    · rintro ⟨front, last, hsplit, -⟩
      simp [reached] at hsplit
  · rw [List.concat_eq_append] at hpast
    subst hpast
    have hlast : v.scheduler.lastStep = setup.finalStep front last := by
      rw [Setup.finalStep, if_neg (h.complete front last rfl)]
      exact h.ready.lastStep
    exact Left.delivered ⟨fun cycle hmem => h.live cycle (List.mem_append_left _ hmem),
      h.live last (by simp), h.sent front last rfl, h.ready.policy, hlast⟩

/-- However the loop ends, the driver is left with the safe image exactly when a turn has got to the
exchange and the outputs given to the driver there already are that image. -/
theorem delivered_iff {setup : Setup} {world : World} {v : LoopState}
    (h : runSchedulerLoop setup world = .finished v []) :
    Delivered v ↔ setup.Settled world.cycles := by
  rcases runSchedulerLoop_cases setup world with ⟨context, e, hfailed⟩ | ⟨start, hsup, hcalls, hrun⟩
  · rw [hfailed] at h
    simp at h
  · rw [hrun] at h
    have hsent : Sent setup [] start := ⟨hsup, fun _ => hcalls, by simp, by simp⟩
    rcases LoopState.mainLoop_rule (fun _ _ hs => hs.ready.running)
      (fun _ _ _ _ hs hnext => sent_turn hs hnext) world.cycles [] start hsent with
      ⟨v', heq, -⟩ | ⟨front, cycle, unused, v', v'', hsplit, heq, hs, hleave⟩
    · rw [heq] at h
      simp at h
    · rw [heq] at h
      injection h with hv hunused
      subst hv hunused
      rw [hsplit]
      rcases left_turn hs hleave with ⟨hstop, rfl⟩ | hleft
      · have hdone := hs.delivered
        rw [List.nil_append] at hdone
        simpa only [Setup.Settled, reached_concat_stop hstop] using hdone
      · simpa using hleft.delivered

/-! ## A lamp that stays on -/

/-- The logic switches the first output on. -/
def lampOn : ProcessData := { ProcessData.zero with digitalOutputs := Vector.replicate 1 1 }

/-- A good turn of the lamp program. -/
def lampCycle : Cycle where
  shutdownRequested := false
  exchange := .ok ()
  safeExchange := .ok ()
  recoveredExchange := .ok ()
  inputs := ⟨0, Vector.replicate 16 0⟩
  events := ⟨false, fun _ => .ok lampOn, 0⟩

/-- A turn in which the logic fails. -/
def lampFailure : Cycle :=
  { lampCycle with events := ⟨false, fun _ => .error (.wasmTrap "step() failed"), 0⟩ }

/-- Two cycles of a millisecond, under a safe output policy. -/
def lampSetup (policy : SafeOutputPolicy) : Setup where
  config := ⟨1000000, 500000, ⟨.fault, policy, ⟨3, 1⟩⟩⟩
  maxCycles := 2

/-- Engine, watchdog and the given turns work. -/
def lampWorld (cycles : List Cycle) : World := ⟨.ok (), .ok (), [], cycles⟩

/-- When the policy holds the last outputs, a logic error leaves the driver with the safe image. -/
theorem delivered_holdLast :
    ∃ v, runSchedulerLoop (lampSetup .holdLast) (lampWorld [lampCycle, lampFailure]) =
      .finished v [] ∧ Delivered v := by
  refine ⟨_, rfl, ?_⟩
  have hrun : runSchedulerLoop (lampSetup .holdLast) (lampWorld [lampCycle, lampFailure]) =
    .finished _ [] := rfl
  exact (delivered_iff hrun).mpr ⟨[lampCycle], lampFailure, rfl, by decide⟩

/-- With all outputs off as the safe image, the cycle limit leaves the lamp on. -/
theorem lamp_stays_on :
    ∃ v, runSchedulerLoop (lampSetup .allOff) (lampWorld [lampCycle, lampCycle]) =
      .finished v [] ∧ ¬ Delivered v := by
  refine ⟨_, rfl, ?_⟩
  rintro ⟨calls, hcalls, hsent⟩
  -- the last turn hands over the outputs of the first step
  have hlamp : LastSent calls lampOn.fieldbusOutputs := by
    have hlist : (runSchedulerLoop (lampSetup .allOff) (lampWorld [lampCycle, lampCycle])).calls =
        [.setOutputs .zero, .exchange (.ok ()), .getInputs lampCycle.inputs, .runCycle,
          .setOutputs lampOn.fieldbusOutputs, .exchange (.ok ()), .getInputs lampCycle.inputs,
          .runCycle] ++ [.shutdown] := by decide
    rw [← (List.append_inj' (hlist.symm.trans hcalls) rfl).1]
    exact ⟨[.setOutputs .zero, .exchange (.ok ()), .getInputs lampCycle.inputs, .runCycle],
      [.exchange (.ok ()), .getInputs lampCycle.inputs, .runCycle], rfl, by simp, .ok (), by simp⟩
  exact absurd (hlamp.unique hsent) (by decide)

end VirtualPlc.Daemon
