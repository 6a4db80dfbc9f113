import VirtualPlc.Control.Protocols
import VirtualPlc.Daemon.Supervision
import VirtualPlc.Runtime.EngineProtocol

/-!
# The daemon and its driver

`driverProtocol` is the order in which the loop may call the fieldbus driver and the scheduler. In
every run the calls of the loop keep to it (`driver_protocol`). The images that they carry have a
source (`images_traced`): what the logic reads is what the driver gave, cycle for cycle, and what
the driver is given is zero or the outputs of a step.
-/

set_option autoImplicit false

namespace VirtualPlc.Daemon

open VirtualPlc.Runtime VirtualPlc.Control

/-! ## The protocol -/

/-- Where the loop stands between two calls. It is muted from a failed exchange on until outputs
are handed over again. -/
inductive DriverMode where
  | idle (muted : Bool)
  | handed
  | linked (muted : Bool)
  | failed
  | zeroed
  | safe
  | restored
  | logic (muted : Bool)
  | alarmed
  | faulted
  | closed
deriving DecidableEq, Repr

/-- What follows from the result of the regular exchange. -/
def DriverMode.exchanged (muted : Bool) (result : PlcResult Unit) : DriverMode :=
  match result with
  | .ok () => .linked muted
  | .error e => if isWkcThreshold (.error e) then .alarmed else .failed

/-- One turn exchanges, reads the inputs and runs a cycle. Outputs come before the exchange, but not
in a muted turn: there they come, if at all, after a good exchange, with one more exchange, and end
the silence. A failed exchange is followed by zeros and another exchange. A threshold error and too
many failures lead to a fault; a fault, and any turn, may be followed by the shutdown, and that by
nothing. -/
def driverProtocol : Acceptor LoopCall DriverMode where
  start := .idle false
  step
    | .idle false, .setOutputs _ => some .handed
    | .idle true, .exchange result => some (.exchanged true result)
    | .handed, .exchange result => some (.exchanged false result)
    | .failed, .setOutputs outputs => if outputs = .zero then some .zeroed else none
    | .zeroed, .exchange _ => some .safe
    | .linked true, .setOutputs _ => some .restored
    | .restored, .exchange _ => some (.linked false)
    | .safe, .getInputs _ => some (.logic true)
    | .linked muted, .getInputs _ => some (.logic muted)
    | .logic muted, .runCycle => some (.idle muted)
    | .safe, .enterFault _ | .alarmed, .enterFault _ => some .faulted
    | .idle _, .shutdown | .faulted, .shutdown => some .closed
    | _, _ => none

/-- Between two turns. -/
def BetweenTurns (v : LoopState) : Prop :=
  driverProtocol.after v.calls = some (.idle v.inFailureStreak)

/-- Where the loop is left. -/
def AtEnd (v : LoopState) : Prop :=
  ∃ mode, driverProtocol.after v.calls = some mode ∧
    driverProtocol.step mode .shutdown = some .closed

/-- What a turn leads to. -/
def Flow.Proper : Flow → Prop
  | .next v => BetweenTurns v
  | .leave v => AtEnd v

/-- In the middle of a turn, where the inputs may be read. -/
def BeforeLogic (v : LoopState) : Prop :=
  ∃ mode, driverProtocol.after v.calls = some mode ∧
    ∀ inputs, driverProtocol.step mode (.getInputs inputs) = some (.logic v.inFailureStreak)

section Turn

variable {setup : Setup} {v : LoopState} {cycle : Cycle}

theorem after_call {mode mode' : DriverMode} {new : List LoopCall}
    (h : driverProtocol.after v.calls = some mode)
    (hnew : driverProtocol.reads mode new = some mode') :
    driverProtocol.after (v.call new).calls = some mode' := by
  rw [LoopState.call_calls, Acceptor.after_append, h, Option.bind_some, hnew]

theorem step_shutdown (muted : Bool) :
    driverProtocol.step (.idle muted) .shutdown = some .closed := by
  cases muted <;> rfl

theorem BetweenTurns.atEnd (h : BetweenTurns v) : AtEnd v := ⟨_, h, step_shutdown _⟩

/-- The regular exchange, with the outputs before it where the turn is not muted. -/
theorem BetweenTurns.sendOutputs (h : BetweenTurns v) (cycle : Cycle) :
    driverProtocol.after (v.sendOutputs cycle).calls =
      some (.exchanged v.inFailureStreak cycle.exchange) := by
  rw [BetweenTurns] at h
  rw [LoopState.sendOutputs]
  cases hstreak : v.inFailureStreak with
  | true =>
    rw [hstreak] at h
    exact after_call h rfl
  | false =>
    rw [hstreak] at h
    exact after_call (after_call h rfl) rfl

theorem exchanged_failed {muted : Bool} {e : PlcError} (hwkc : isWkcThreshold (.error e) = false) :
    DriverMode.exchanged muted (.error e) = .failed := by
  rw [DriverMode.exchanged, hwkc]
  rfl

/-- Zeros are sent after a failed exchange. -/
theorem BetweenTurns.exchangeFailed (h : BetweenTurns v) {e : PlcError}
    (hexchange : cycle.exchange = .error e) (hwkc : isWkcThreshold (.error e) = false) :
    driverProtocol.after ((v.sendOutputs cycle).exchangeFailed cycle).calls = some .safe := by
  have hsent := h.sendOutputs cycle
  rw [hexchange, exchanged_failed hwkc] at hsent
  exact after_call hsent rfl

/-- The outputs are sent again where the silence ends. -/
theorem BetweenTurns.exchangeRecovered (h : BetweenTurns v) (hexchange : cycle.exchange = .ok ())
    (hstreak : v.inFailureStreak = true) (policy : FieldbusFailurePolicy) :
    BeforeLogic ((v.sendOutputs cycle).exchangeRecovered policy cycle) := by
  have hsent := h.sendOutputs cycle
  rw [hexchange, hstreak] at hsent
  rw [LoopState.exchangeRecovered]
  dsimp only
  split
  · exact ⟨_, after_call hsent rfl, fun inputs => rfl⟩
  · refine ⟨_, hsent, fun inputs => ?_⟩
    show some _ = some (DriverMode.logic (v.sendOutputs cycle).inFailureStreak)
    rw [LoopState.sendOutputs_inFailureStreak, hstreak]

/-- The second half of a turn. -/
theorem BeforeLogic.logicCycle (h : BeforeLogic v) (maxCycles : BitVec 64) (cycle : Cycle) :
    (v.logicCycle maxCycles cycle).Proper := by
  obtain ⟨mode, hafter, hlogic⟩ := h
  have hcalls : driverProtocol.after ((v.readInputs cycle).call [.runCycle]).calls =
      some (.idle v.inFailureStreak) := by
    have hinputs : driverProtocol.after (v.readInputs cycle).calls =
        some (.logic v.inFailureStreak) := by
      apply after_call hafter
      rw [Acceptor.reads_cons, hlogic]
      rfl
    exact after_call hinputs rfl
  rw [LoopState.logicCycle]
  dsimp only
  rcases (v.readInputs cycle).scheduler.runCycle cycle.events with ⟨result, scheduler⟩
  cases result with
  | error e => exact ⟨_, hcalls, step_shutdown _⟩
  | ok result =>
    dsimp only
    split
    · exact ⟨_, hcalls, step_shutdown _⟩
    · exact hcalls

/-- A turn keeps to the protocol. -/
theorem BetweenTurns.turn (h : BetweenTurns v) (setup : Setup) (cycle : Cycle) :
    (v.turn setup cycle).Proper := by
  cases v.turn_cases setup cycle with
  | stopped _ heq =>
    rw [heq]
    exact h.atEnd
  | wkcFault _ hwkc heq =>
    rw [heq]
    have hsent := h.sendOutputs cycle
    cases hexchange : cycle.exchange with
    | ok u =>
      rw [hexchange] at hwkc
      cases hwkc
    | error e =>
      rw [hexchange] at hwkc
      rw [hexchange, DriverMode.exchanged, hwkc, if_pos rfl] at hsent
      -- the exchange reports the threshold, and the loop faults at once
      exact ⟨.faulted, after_call hsent rfl, rfl⟩
  | gaveUp _ e hexchange hwkc _ heq =>
    rw [heq]
    exact ⟨.faulted, after_call (h.exchangeFailed hexchange hwkc) rfl, rfl⟩
  | failed _ e hexchange hwkc _ heq =>
    rw [heq]
    exact BeforeLogic.logicCycle ⟨_, h.exchangeFailed hexchange hwkc, fun inputs => rfl⟩ _ cycle
  | recovering _ hexchange hstreak heq =>
    rw [heq]
    exact (h.exchangeRecovered hexchange hstreak _).logicCycle _ cycle
  | normal _ hexchange hstreak heq =>
    rw [heq]
    have hsent := h.sendOutputs cycle
    rw [hexchange, hstreak] at hsent
    refine BeforeLogic.logicCycle ⟨_, hsent, fun inputs => ?_⟩ _ cycle
    rw [LoopState.sendOutputs_inFailureStreak, hstreak]
    rfl

end Turn

/-- The loop keeps to the protocol. -/
theorem BetweenTurns.mainLoop {v : LoopState} (h : BetweenTurns v) (setup : Setup)
    (cycles : List Cycle) : (v.mainLoop setup cycles).1.Proper := by
  induction cycles generalizing v with
  | nil =>
    rw [LoopState.mainLoop]
    split
    · exact h
    · exact h.atEnd
  | cons cycle rest ih =>
    rw [LoopState.mainLoop]
    split
    · have hturn := h.turn setup cycle
      split
      · next v' heq =>
        rw [heq] at hturn
        exact ih hturn
      · next v' heq =>
        rw [heq] at hturn
        exact hturn
    · exact h.atEnd

/-- Nothing comes after the shutdown. -/
theorem shutdown_final : ∀ mode mode', driverProtocol.step mode .shutdown = some mode' →
    ∀ call, driverProtocol.step mode' call = none := by
  intro mode mode' hstep call
  have hclosed : mode' = .closed := by
    cases mode with
    | idle muted => exact (Option.some.inj ((step_shutdown muted).symm.trans hstep)).symm
    | faulted => exact (Option.some.inj hstep).symm
    | linked muted => cases muted <;> cases hstep
    | handed | failed | zeroed | safe | restored | logic _ | alarmed | closed => cases hstep
  subst hclosed
  cases call <;> rfl

/-- In every run the calls of the loop keep to the protocol. In one that has ended the driver is
shut down once, and that is the last call. -/
theorem driver_protocol (setup : Setup) (world : World) :
    (∃ mode, driverProtocol.after (runSchedulerLoop setup world).calls = some mode) ∧
      ∀ v unused, runSchedulerLoop setup world = .finished v unused →
        ∃ calls, v.calls = calls ++ [.shutdown] ∧ .shutdown ∉ calls := by
  rcases runSchedulerLoop_cases setup world with ⟨context, e, heq⟩ | ⟨v, hsupervised, hcalls, heq⟩
  · rw [heq]
    exact ⟨⟨_, rfl⟩, fun v unused hfinished => by cases hfinished⟩
  · have hstreak : v.inFailureStreak = false := hsupervised.counts.active
    have hstart : BetweenTurns v := by
      rw [BetweenTurns, hcalls, hstreak]
      rfl
    have hloop := hstart.mainLoop setup world.cycles
    rw [heq]
    rcases hmain : v.mainLoop setup world.cycles with ⟨flow, unused⟩
    rw [hmain] at hloop
    cases flow with
    | next v' => exact ⟨⟨_, hloop⟩, fun v unused hfinished => by cases hfinished⟩
    | leave v' =>
      obtain ⟨mode, hafter, hshutdown⟩ := hloop
      have hclosed : driverProtocol.after v'.shutDown.calls = some .closed := by
        apply after_call (v := v') hafter
        rw [Acceptor.reads_cons, hshutdown]
        rfl
      refine ⟨⟨.closed, hclosed⟩, ?_⟩
      intro v'' unused' hfinished
      obtain ⟨rfl, -⟩ : v'.shutDown = v'' ∧ unused = unused' := by
        injection hfinished with hv hunused
        exact ⟨hv, hunused⟩
      refine ⟨v'.calls, rfl, ?_⟩
      exact driverProtocol.not_mem_of_final shutdown_final hafter
        (by rw [hshutdown]; exact Option.some_ne_none _)

/-! ## Where the images come from -/

/-- The image that a step reads. -/
def inputsOfStep : EngineCall → Option ProcessData
  | .step inputs _ => some inputs
  | .init _ | .fault => none

/-- The image of the inputs that the driver gives. -/
def inputsOfDriver : LoopCall → Option ProcessData
  | .getInputs inputs => some inputs.image
  | _ => none

/-- Zero, or the outputs of a step that the engine has made. -/
def FromStep (engine : List EngineCall) (outputs : FieldbusOutputs) : Prop :=
  outputs = .zero ∨ ∃ inputs data, EngineCall.step inputs (.ok data) ∈ engine ∧
    data.fieldbusOutputs = outputs

theorem FromStep.append {engine : List EngineCall} {outputs : FieldbusOutputs}
    (h : FromStep engine outputs) (new : List EngineCall) : FromStep (engine ++ new) outputs := by
  rcases h with h | ⟨inputs, data, hmem, h⟩
  · exact .inl h
  · exact .inr ⟨inputs, data, List.mem_append_left new hmem, h⟩

/-- The outputs of the last step are those of a step. -/
theorem fromStep_lastStep (s : Scheduler) : FromStep s.engine s.lastStep := by
  rw [Scheduler.lastStep]
  induction s.engine using List.reverseRecOn with
  | nil => exact .inl rfl
  | append_singleton engine call ih =>
    rw [List.filterMap_append]
    cases call with
    | init result =>
      rw [show [EngineCall.init result].filterMap EngineCall.moment = [] from rfl, List.append_nil]
      exact ih.append _
    | fault =>
      rw [show [EngineCall.fault].filterMap EngineCall.moment = [.safe] from rfl, held_safe]
      exact ih.append _
    | step inputs result =>
      cases result with
      | error e =>
        rw [show [EngineCall.step inputs (.error e)].filterMap EngineCall.moment = [] from rfl,
          List.append_nil]
        exact ih.append _
      | ok data =>
        rw [show [EngineCall.step inputs (.ok data)].filterMap EngineCall.moment =
          [.stepped data.fieldbusOutputs] from rfl, held_stepped]
        exact .inr ⟨inputs, data, List.mem_append_right _ List.mem_cons_self, rfl⟩

/-- The steps have read what the driver gave, one after the other, up to at most `slack` images that
no step has read. The driver was given zeros and the outputs of steps. -/
structure ImagesTraced (slack : Nat) (v : LoopState) : Prop where
  inputs : ∃ unread, v.calls.filterMap inputsOfDriver =
    v.scheduler.engine.filterMap inputsOfStep ++ unread ∧ unread.length ≤ slack
  outputs : ∀ outputs, LoopCall.setOutputs outputs ∈ v.calls → FromStep v.scheduler.engine outputs

section Images

variable {setup : Setup} {past : List Cycle} {v : LoopState} {cycle : Cycle} {slack : Nat}

theorem ImagesTraced.mono (h : ImagesTraced 0 v) : ImagesTraced slack v := by
  obtain ⟨unread, heq, hle⟩ := h.inputs
  exact ⟨⟨unread, heq, hle.trans (Nat.zero_le _)⟩, h.outputs⟩

/-- Calls that read nothing, and hand over what has a source. -/
theorem ImagesTraced.call (h : ImagesTraced slack v) {new : List LoopCall}
    (hinputs : new.filterMap inputsOfDriver = [])
    (houtputs : ∀ outputs, LoopCall.setOutputs outputs ∈ new →
      FromStep v.scheduler.engine outputs) : ImagesTraced slack (v.call new) := by
  obtain ⟨unread, heq, hle⟩ := h.inputs
  refine ⟨⟨unread, ?_, hle⟩, fun outputs hmem => ?_⟩
  · rw [LoopState.call_calls, List.filterMap_append, hinputs, List.append_nil]
    exact heq
  · rcases List.mem_append.1 hmem with hold | hnew
    · exact h.outputs outputs hold
    · exact houtputs outputs hnew

/-- The engine is told of a fault, and not stepped. -/
theorem ImagesTraced.enterFault (h : ImagesTraced slack v) : ImagesTraced slack v.enterFault := by
  obtain ⟨unread, heq, hle⟩ := h.inputs
  refine ⟨⟨unread, ?_, hle⟩, fun outputs hmem => ?_⟩
  · show (v.calls ++ [LoopCall.enterFault v.scheduler.enterFault.state.current]).filterMap
      inputsOfDriver = (v.scheduler.engine ++ [EngineCall.fault]).filterMap inputsOfStep ++ unread
    rw [List.filterMap_append, List.filterMap_append, heq]
    show _ ++ unread ++ [] = _ ++ [] ++ unread
    rw [List.append_nil, List.append_nil]
  · have hmem' : LoopCall.setOutputs outputs ∈ v.calls := by
      rcases List.mem_append.1 hmem with hold | hnew
      · exact hold
      · cases List.mem_singleton.1 hnew
    exact (h.outputs outputs hmem').append _

theorem fromStep_outputs (h : Supervised setup past v) :
    FromStep v.scheduler.engine v.outputs := by
  have hlast := fromStep_lastStep v.scheduler
  rwa [h.ready.lastStep, ← h.ready.published] at hlast

theorem Supervised.images_sendOutputs (h : Supervised setup past v) (himages : ImagesTraced 0 v)
    (cycle : Cycle) : ImagesTraced 0 (v.sendOutputs cycle) := by
  have hexchange : ∀ {w : LoopState}, ImagesTraced 0 w →
      ImagesTraced 0 (w.call [.exchange cycle.exchange]) := by
    intro w hw
    exact hw.call rfl fun outputs hmem => by cases List.mem_singleton.1 hmem
  rw [LoopState.sendOutputs]
  split
  · exact hexchange himages
  · refine hexchange (himages.call rfl fun outputs hmem => ?_)
    obtain rfl : outputs = v.outputs := by
      have heq := List.mem_singleton.1 hmem
      injection heq
    exact fromStep_outputs h

/-- What a turn leads to, as far as images are concerned. -/
def Flow.Traced : Flow → Prop
  | .next v => ImagesTraced 0 v
  | .leave v => ImagesTraced 1 v

/-- A cycle of a running scheduler steps the engine once, with its inputs, or fails. -/
theorem runCycle_inputs {s : Scheduler} (hrun : s.state.current = .run) (events : CycleEvents) :
    ∃ new, (s.runCycle events).2.engine = s.engine ++ new ∧
      (new.filterMap inputsOfStep = [s.io.readInputs] ∨
        new.filterMap inputsOfStep = [] ∧ ∃ e, (s.runCycle events).1 = .error e) := by
  cases s.runCycle_cases events with
  | refused hstate => exact absurd hrun hstate
  | timeout _ _ heq =>
    rw [heq]
    exact ⟨[.fault], rfl, .inr ⟨rfl, _, rfl⟩⟩
  | failed _ _ e _ heq =>
    rw [heq]
    exact ⟨[.step s.io.readInputs (.error e), .fault], List.append_assoc _ _ _, .inl rfl⟩
  | overrun _ _ outputs _ _ heq =>
    rw [heq]
    exact ⟨[.step s.io.readInputs (.ok outputs), .fault], List.append_assoc _ _ _, .inl rfl⟩
  | completed _ _ outputs _ _ heq =>
    rw [heq]
    exact ⟨[.step s.io.readInputs (.ok outputs)], rfl, .inl rfl⟩

/-- The step reads what the driver has just given. -/
theorem ImagesTraced.logicCycle (himages : ImagesTraced 0 v) {outputs : FieldbusOutputs}
    (hready : Ready setup v.scheduler outputs) (maxCycles : BitVec 64) (cycle : Cycle) :
    (v.logicCycle maxCycles cycle).Traced := by
  obtain ⟨unread, heq, hle⟩ := himages.inputs
  obtain rfl : unread = [] := List.eq_nil_of_length_eq_zero (Nat.le_zero.1 hle)
  rw [List.append_nil] at heq
  have hread : (v.readInputs cycle).scheduler.io.readInputs = cycle.inputs.image :=
    hready.inputsOnly.readInputs_writeInputs cycle.inputs
  obtain ⟨new, hengine, hnew⟩ := runCycle_inputs
    (show (v.readInputs cycle).scheduler.state.current = .run from hready.running) cycle.events
  -- the images that the driver gives and the steps read, after the cycle
  have hgiven : ((v.readInputs cycle).call [.runCycle]).calls.filterMap inputsOfDriver =
      v.scheduler.engine.filterMap inputsOfStep ++ [cycle.inputs.image] := by
    rw [← heq]
    simp [LoopState.readInputs, List.filterMap_append, inputsOfDriver]
  have hhanded : ∀ outputs, LoopCall.setOutputs outputs ∈
      ((v.readInputs cycle).call [.runCycle]).calls →
        FromStep (v.scheduler.engine ++ new) outputs := by
    intro outputs hmem
    have hmem' : LoopCall.setOutputs outputs ∈ v.calls := by
      simpa [LoopState.readInputs] using hmem
    exact (himages.outputs outputs hmem').append new
  rw [LoopState.logicCycle]
  dsimp only
  rcases hcycle : (v.readInputs cycle).scheduler.runCycle cycle.events with ⟨result, scheduler⟩
  rw [hcycle] at hengine hnew
  have hengine' : scheduler.engine = v.scheduler.engine ++ new := hengine
  have htraced : ∀ w : LoopState, w.scheduler = scheduler →
      w.calls = ((v.readInputs cycle).call [.runCycle]).calls → ImagesTraced 1 w ∧
        ((∃ r, result = .ok r) → ImagesTraced 0 w) := by
    rintro w rfl hcalls
    rw [← hcalls] at hgiven hhanded
    rw [← hengine'] at hhanded
    rcases hnew with hone | ⟨hnone, e, herror⟩
    · have hall : w.calls.filterMap inputsOfDriver = w.scheduler.engine.filterMap inputsOfStep := by
        rw [hgiven, hengine', List.filterMap_append, hone, hread]
      have hzero : ImagesTraced 0 w :=
        ⟨⟨[], by rw [hall, List.append_nil], Nat.le_refl 0⟩, hhanded⟩
      exact ⟨hzero.mono, fun _ => hzero⟩
    · refine ⟨⟨⟨[cycle.inputs.image], ?_, Nat.le_refl 1⟩, hhanded⟩, ?_⟩
      · rw [hgiven, hengine', List.filterMap_append, hnone, List.append_nil]
      · rintro ⟨r, hr⟩
        cases herror.symm.trans hr
  cases result with
  | error e => refine (htraced _ ?_ ?_).1 <;> rfl
  | ok r =>
    dsimp only
    split
    · refine (htraced _ ?_ ?_).1 <;> rfl
    · refine (htraced _ ?_ ?_).2 ⟨r, rfl⟩ <;> rfl

/-- A turn keeps the images traced. -/
theorem Supervised.images_turn (h : Supervised setup past v) (himages : ImagesTraced 0 v)
    (cycle : Cycle) : (v.turn setup cycle).Traced := by
  have hsent := h.images_sendOutputs himages cycle
  have hzero : ImagesTraced 0 ((v.sendOutputs cycle).exchangeFailed cycle) := by
    have hcall : ImagesTraced 0 ((v.sendOutputs cycle).call
        [.setOutputs .zero, .exchange cycle.safeExchange]) := by
      refine hsent.call rfl fun outputs hmem => ?_
      have hout : outputs = .zero := by simpa using hmem
      exact .inl hout
    exact ⟨hcall.inputs, hcall.outputs⟩
  cases v.turn_cases setup cycle with
  | stopped _ heq =>
    rw [heq]
    exact himages.mono
  | wkcFault _ _ heq =>
    rw [heq]
    exact hsent.enterFault.mono
  | gaveUp _ _ _ _ _ heq =>
    rw [heq]
    exact hzero.enterFault.mono
  | failed _ e hexchange hwkc hlimit heq =>
    rw [heq]
    exact hzero.logicCycle (h.linked_failed hexchange hwkc hlimit).ready _ cycle
  | recovering _ hexchange hstreak heq =>
    rw [heq]
    have hagain : ImagesTraced 0 ((v.sendOutputs cycle).exchangeRecovered setup.failurePolicy
        cycle) := by
      rw [LoopState.exchangeRecovered]
      dsimp only
      split
      · have hcall : ImagesTraced 0 ((v.sendOutputs cycle).call
            [.setOutputs (v.sendOutputs cycle).outputs, .exchange cycle.recoveredExchange]) := by
          refine hsent.call rfl fun outputs hmem => ?_
          obtain rfl : outputs = (v.sendOutputs cycle).outputs := by simpa using hmem
          rw [LoopState.outputs, sendOutputs_scheduler]
          exact fromStep_outputs h
        exact ⟨hcall.inputs, hcall.outputs⟩
      · exact ⟨hsent.inputs, hsent.outputs⟩
    exact hagain.logicCycle (h.linked_recovering hexchange hstreak).ready _ cycle
  | normal _ hexchange hstreak heq =>
    rw [heq]
    exact hsent.logicCycle (h.linked_normal hexchange hstreak).ready _ cycle

/-- The loop keeps them traced. -/
theorem Supervised.images_mainLoop (h : Supervised setup past v) (himages : ImagesTraced 0 v)
    (cycles : List Cycle) : (v.mainLoop setup cycles).1.Traced := by
  induction cycles generalizing past v with
  | nil =>
    rw [LoopState.mainLoop]
    split
    · exact himages
    · exact himages.mono
  | cons cycle rest ih =>
    rw [LoopState.mainLoop]
    split
    · have hturn := h.images_turn himages cycle
      split
      · next v' heq =>
        rw [heq] at hturn
        exact ih (supervised_turn h heq) hturn
      · next v' heq =>
        rw [heq] at hturn
        exact hturn
    · exact himages.mono

end Images

/-- A run that gets to the loop starts it with an engine that has not been stepped. -/
theorem runSchedulerLoop_start (setup : Setup) (world : World) :
    (∃ context e, runSchedulerLoop setup world = .failed context e) ∨
      ∃ v, Supervised setup [] v ∧ ImagesTraced 0 v ∧
        runSchedulerLoop setup world =
          match v.mainLoop setup world.cycles with
          | (.next v, _) => .running v
          | (.leave v, unused) => .finished v.shutDown unused := by
  rw [runSchedulerLoop]
  rcases hinit : (createScheduler setup.config).initializeScheduler world.init with ⟨result, s⟩
  cases result with
  | error e => exact .inl ⟨_, e, rfl⟩
  | ok u =>
    rcases hstart : s.start world.spawn with ⟨result, s'⟩
    cases result with
    | error e =>
      refine .inl ⟨"Failed to start scheduler", e, ?_⟩
      simp only [hstart]
    | ok u =>
      obtain ⟨watchdog, state, hs', -⟩ := s.start_cases world.spawn
      rw [hstart] at hs'
      have hengine : s'.engine = [.init world.init] := by
        rw [show s' = _ from hs', initialize_create hinit]
      refine .inr ⟨.new s', supervised_new hinit hstart, ⟨⟨[], ?_, Nat.le_refl 0⟩, ?_⟩, ?_⟩
      · show [] = s'.engine.filterMap inputsOfStep ++ []
        rw [hengine]
        rfl
      · intro outputs hmem
        cases hmem
      · rcases hmain : (LoopState.new s').mainLoop setup world.cycles with ⟨flow, unused⟩
        cases flow <;> simp only [hstart, waitForShutdown_zero, Bool.false_eq_true, if_false, hmain]

/-- The images of a run have their source. -/
def Run.Traced : Run → Prop
  | .failed _ _ => True
  | .running v => ImagesTraced 0 v
  | .finished v _ => ImagesTraced 1 v

/-- In every run the logic reads what the driver gave, cycle for cycle; only the images of a cycle
that the watchdog has ended are not read. Whatever the driver is handed is zero or the outputs of a
step. -/
theorem images_traced (setup : Setup) (world : World) : (runSchedulerLoop setup world).Traced := by
  rcases runSchedulerLoop_start setup world with ⟨context, e, heq⟩ | ⟨v, hsupervised, hstart, heq⟩
  · rw [heq]
    trivial
  · have hloop := hsupervised.images_mainLoop hstart world.cycles
    rw [heq]
    rcases hmain : v.mainLoop setup world.cycles with ⟨flow, unused⟩
    rw [hmain] at hloop
    cases flow with
    | next v' => exact hloop
    | leave v' =>
      have hcalled : ImagesTraced 1 (v'.call [.shutdown]) :=
        ImagesTraced.call hloop rfl fun outputs hmem => by cases List.mem_singleton.1 hmem
      have hengine : v'.shutDown.scheduler.engine = v'.scheduler.engine :=
        v'.scheduler.stop_engine_faultPolicy.1
      refine ⟨?_, ?_⟩
      · rw [hengine]
        exact hcalled.inputs
      · rw [hengine]
        exact hcalled.outputs

end VirtualPlc.Daemon
