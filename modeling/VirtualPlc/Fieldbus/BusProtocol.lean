import VirtualPlc.Control.Protocols
import VirtualPlc.Fieldbus.WkcOverflow

/-!
# What the slaves hear

The calls to the transport, read against the state machine of the slaves. A slave goes up by one
level at a time and down by any number, and takes process data in SAFE_OP and OP only. In every run
the master keeps to this, and it commands and exchanges nothing before a scan nor after the
transport is closed (`bus_protocol`). When the supervision has tripped, the slaves hear no command
and no process data until the next scan (`quiet_after_trip`). SDO accesses and the calls for the
distributed clocks are not restricted: in FAULT the master makes them, too.
-/

set_option autoImplicit false

namespace VirtualPlc.Fieldbus

open VirtualPlc.Runtime VirtualPlc.Word VirtualPlc.Control

/-! ## The state machine of the slaves -/

/-- How far up a slave is. -/
def SlaveState.height : SlaveState → Nat
  | .init | .bootstrap => 0
  | .preOp => 1
  | .safeOp => 2
  | .op => 3

/-- The commands that a slave can take: one level up, or any number down. -/
def SlaveState.leads (level target : SlaveState) : Bool :=
  target ≠ .bootstrap && target.height ≤ level.height + 1

/-- A slave that takes process data. -/
def SlaveState.cyclic (level : SlaveState) : Bool := level = .safeOp || level = .op

/-- What an observer of the bus knows: the level that the slaves have accepted last, and whether the
bus has been scanned since it was closed. -/
structure BusMode where
  level : SlaveState
  scanned : Bool
deriving DecidableEq, Repr

/-- The protocol of the bus. A command that fails leaves the slaves where they are. Commands and
exchanges are restricted; scans, SDO accesses, calls for the distributed clocks and closes are
not. -/
def busProtocol : Acceptor TransportCall BusMode where
  start := ⟨.init, false⟩
  step mode
    | .scanSlaves _ => some { mode with scanned := true }
    | .setState target result =>
      if mode.scanned && mode.level.leads target then
        match result with
        | .ok () => some { mode with level := target }
        | .error _ => some mode
      else none
    | .exchange _ _ => if mode.scanned && mode.level.cyclic then some mode else none
    | .close (.ok ()) => some { mode with scanned := false }
    | _ => some mode

/-- A call that is no scan, no command and no exchange. SDO accesses and the calls for the
distributed clocks are mute, although the slaves take part in them. -/
def TransportCall.mute : TransportCall → Bool
  | .scanSlaves _ | .setState _ _ | .exchange _ _ => false
  | _ => true

/-! ## The master on the bus -/

namespace EthercatMaster

/-- Where the master has a command for its state, the slaves are at that level. Outside of OFFLINE
and FAULT it has scanned the bus. -/
structure Knows (m : EthercatMaster) (mode : BusMode) : Prop where
  level : ∀ command, m.state.command = some command → mode.level = command
  scanned : m.state ≠ .offline → m.state ≠ .fault → mode.scanned = true

/-- The calls so far keep to the protocol, and lead to what the master takes for granted. -/
abbrev OnBus : EthercatMaster → Prop := busProtocol.Follows transport Knows

variable {b : Build} {config : EthercatConfig} {m m' : EthercatMaster}

/-- New data, and no call. -/
theorem OnBus.congr (h : m.OnBus) (htransport : m'.transport = m.transport)
    (hstate : m'.state = m.state) : m'.OnBus := by
  obtain ⟨mode, hafter, hlevel, hscanned⟩ := h
  refine ⟨mode, by rwa [htransport], ?_, ?_⟩
  · rwa [hstate]
  · rwa [hstate]

/-- One call, after which the master stays in its state. -/
theorem OnBus.call (h : m.OnBus) {c : TransportCall}
    (hstep : ∀ mode, m.Knows mode → ∃ mode', busProtocol.step mode c = some mode' ∧
      m.Knows mode') : (m.call c).OnBus := by
  refine Acceptor.Follows.step h rfl ?_
  intro mode hknows
  obtain ⟨mode', hmode', hknows'⟩ := hstep mode hknows
  refine ⟨mode', ?_, hknows'.level, hknows'.scanned⟩
  rw [Acceptor.reads_cons, hmode']
  rfl

/-- A call that asks the slaves for nothing changes nothing for an observer. -/
theorem OnBus.ask (h : m.OnBus) {c : TransportCall}
    (hc : ∀ mode, busProtocol.step mode c = some mode) : (m.call c).OnBus :=
  h.call fun mode hknows => ⟨mode, hc mode, hknows⟩

/-- Going to FAULT or to OFFLINE needs no call. -/
theorem OnBus.leave (h : m.OnBus) (htransport : m'.transport = m.transport)
    (hstate : m'.state = .fault ∨ m'.state = .offline) : m'.OnBus := by
  obtain ⟨mode, hafter, -, -⟩ := h
  refine ⟨mode, by rwa [htransport], ?_, ?_⟩
  · intro command hcommand
    rcases hstate with hfault | hoffline
    · rw [hfault] at hcommand
      cases hcommand
    · rw [hoffline] at hcommand
      cases hcommand
  · intro hoffline hfault
    rcases hstate with h' | h'
    · exact absurd h' hfault
    · exact absurd h' hoffline

/-! ## Commands -/

/-- The states from which a command is given, with the command and the state it leads to. -/
def Ordered (source : MasterState) (command : SlaveState) (target : MasterState) : Prop :=
  source ≠ .offline ∧ source ≠ .fault ∧ (target.command = none ∨ target.command = some command) ∧
    ∀ level, (∀ command, source.command = some command → level = command) →
      level.leads command = true

theorem ordered_init : Ordered .init .preOp .preOp := by
  refine ⟨by simp, by simp, .inr rfl, ?_⟩
  -- a re-scan leaves the slaves wherever they are, and PRE_OP is open to all of them
  intro level _
  cases level <;> rfl

theorem ordered_of_command {source target : MasterState} {level command : SlaveState}
    (hsource : source.command = some level)
    (htarget : target.command = none ∨ target.command = some command)
    (hleads : level.leads command = true) : Ordered source command target := by
  refine ⟨?_, ?_, htarget, ?_⟩
  · rintro rfl
    cases hsource
  · rintro rfl
    cases hsource
  · intro other hother
    rw [hother level hsource]
    exact hleads

/-- A command that the slaves refuse. -/
theorem OnBus.refused (h : m.OnBus) {command : SlaveState} {target : MasterState}
    (hordered : Ordered m.state command target) (e : PlcError) :
    (m.call (.setState command (.error e))).OnBus := by
  obtain ⟨hoffline, hfault, -, hleads⟩ := hordered
  refine h.call fun mode hknows => ⟨mode, ?_, hknows⟩
  have hscanned := hknows.scanned hoffline hfault
  have hlevel := hleads mode.level hknows.level
  simp [busProtocol, hscanned, hlevel]

/-- A command that the slaves accept. -/
theorem OnBus.commanded (h : m.OnBus) {command : SlaveState} {target : MasterState}
    (hordered : Ordered m.state command target)
    (htransport : m'.transport = m.transport ++ [.setState command (.ok ())])
    (hstate : m'.state = target) : m'.OnBus := by
  obtain ⟨hoffline, hfault, htarget, hleads⟩ := hordered
  refine Acceptor.Follows.step h htransport ?_
  intro mode hknows
  have hscanned := hknows.scanned hoffline hfault
  have hlevel := hleads mode.level hknows.level
  refine ⟨⟨command, true⟩, ?_, ?_, fun _ _ => rfl⟩
  · simp [Acceptor.reads_cons, busProtocol, hscanned, hlevel]
  · intro other hother
    rw [hstate] at hother
    rcases htarget with hnone | hsome
    · rw [hnone] at hother
      cases hother
    · rw [hsome] at hother
      exact Option.some.inj hother

theorem OnBus.advance (h : m.OnBus) {source target : MasterState} {action : String}
    {command : SlaveState} (hordered : Ordered source command target) (answer : PlcResult Unit) :
    (advance source action command target m answer).2.OnBus := by
  unfold EthercatMaster.advance
  split
  · exact h
  · next hsource =>
    obtain rfl : m.state = source := not_not.1 hsource
    cases answer with
    | error e => exact h.refused hordered e
    | ok u => exact h.commanded hordered rfl rfl

theorem OnBus.stepDown (h : m.OnBus) {source target : MasterState} {command : SlaveState}
    (hordered : Ordered source command target) (answer : PlcResult Unit) :
    (stepDown source command target m answer).2.OnBus := by
  unfold EthercatMaster.stepDown
  split
  · next hsource =>
    obtain rfl : m.state = source := hsource
    cases answer with
    | error e => exact h.refused hordered e
    | ok u => exact h.commanded hordered rfl rfl
  · exact h

/-! ## Operations -/

theorem OnBus.andThen {step : PlcResult Unit × EthercatMaster}
    {f : EthercatMaster → PlcResult Unit × EthercatMaster} (hstep : step.2.OnBus)
    (hf : ∀ m' : EthercatMaster, m'.OnBus → (f m').2.OnBus) : (andThen step f).2.OnBus := by
  obtain ⟨result, m'⟩ := step
  cases result with
  | error e => exact hstep
  | ok u => exact hf m' hstep

/-- A scan opens the bus, even where it fails. -/
theorem OnBus.beginScan (h : m.OnBus) (answer : PlcResult (List SlaveConfig)) :
    (m.beginScan.call (.scanSlaves answer)).OnBus := by
  refine Acceptor.Follows.step h rfl ?_
  intro mode hknows
  refine ⟨{ mode with scanned := true }, rfl, ?_, fun _ _ => rfl⟩
  intro command hcommand
  cases hcommand

theorem OnBus.foldl_addScanned (h : m.OnBus) (slaves : List SlaveConfig) :
    (slaves.foldl EthercatMaster.addScanned m).OnBus := by
  induction slaves generalizing m with
  | nil => exact h
  | cons slave rest ih => exact ih (h.congr rfl rfl)

theorem OnBus.scanSlaves {answer : PlcResult (List SlaveConfig)}
    {r : PlcResult Nat × EthercatMaster} (h : m.OnBus) (hr : m.scanSlaves b answer = .ok r) :
    r.2.OnBus := by
  have hbegin := h.beginScan answer
  cases answer with
  | error e =>
    cases hr
    exact hbegin
  | ok slaves =>
    rw [EthercatMaster.scanSlaves] at hr
    obtain ⟨expectedWkc, -, hr⟩ := bind_eq_ok.1 hr
    cases hr
    exact (hbegin.foldl_addScanned slaves).congr rfl rfl

theorem OnBus.configureDcSlaves (h : m.OnBus) (answer : DcSlaveConfig → PlcResult Unit)
    (slaves : List DcSlaveConfig) : (configureDcSlaves answer m slaves).2.OnBus := by
  induction slaves generalizing m with
  | nil => exact h
  | cons slave rest ih =>
    have hcall : (m.call (.configureSlaveDc slave (answer slave))).OnBus := h.ask fun _ => rfl
    rw [EthercatMaster.configureDcSlaves]
    split
    · split
      · exact hcall
      · exact ih hcall
    · exact ih h

theorem OnBus.configureDc (h : m.OnBus) (dcTime : PlcResult (BitVec 64))
    (answer : DcSlaveConfig → PlcResult Unit) : (m.configureDc dcTime answer).2.OnBus := by
  rw [EthercatMaster.configureDc]
  split
  · exact h
  · have hcall : (m.call (.readDcTime dcTime)).OnBus := h.ask fun _ => rfl
    cases dcTime with
    | error e => exact hcall
    | ok initialTime =>
      dsimp only
      apply OnBus.configureDcSlaves
      exact hcall.congr rfl rfl

/-- A closed bus hears nothing more, whatever level the slaves are at. -/
theorem OnBus.closeTransport (h : m.OnBus) (answer : PlcResult Unit) :
    (m.closeTransport answer).2.OnBus := by
  cases answer with
  | error e => exact h.ask fun _ => rfl
  | ok u =>
    refine Acceptor.Follows.step h rfl ?_
    intro mode _
    refine ⟨{ mode with scanned := false }, rfl, ?_, fun hoffline => absurd rfl hoffline⟩
    intro command hcommand
    cases hcommand

theorem OnBus.init {answers : InitAnswers} {r : PlcResult Unit × EthercatMaster} (h : m.OnBus)
    (hr : m.init b answers = .ok r) : r.2.OnBus := by
  obtain ⟨⟨result, scanned⟩, hscan, hr⟩ := bind_eq_ok.1 hr
  have hscanned : scanned.OnBus := h.scanSlaves hscan
  cases result with
  | error e =>
    cases hr
    exact hscanned
  | ok count =>
    cases hr
    apply OnBus.andThen (hscanned.advance ordered_init _)
    intro m₁ h₁
    apply OnBus.andThen (h₁.configureDc _ _)
    intro m₂ h₂
    apply OnBus.andThen (h₂.advance (ordered_of_command rfl (.inr rfl) rfl) _)
    intro m₃ h₃
    exact h₃.advance (ordered_of_command rfl (.inr rfl) rfl) _

theorem OnBus.shutdown (h : m.OnBus) (answers : ShutdownAnswers) :
    (m.shutdown answers).2.OnBus := by
  apply OnBus.andThen (h.stepDown (ordered_of_command rfl (.inr rfl) rfl) _)
  intro m₁ h₁
  apply OnBus.andThen (h₁.stepDown (ordered_of_command rfl (.inr rfl) rfl) _)
  intro m₂ h₂
  apply OnBus.andThen (h₂.stepDown (ordered_of_command rfl (.inl rfl) rfl) _)
  intro m₃ h₃
  exact h₃.closeTransport _

/-- Process data go out in SAFE_OP and OP, where the slaves are at that level as well. -/
theorem OnBus.exchanged (h : m.OnBus) (hstate : m.exchanging = true) (answers : ExchangeAnswers) :
    (m.exchanged answers).OnBus := by
  have hcall : (m.call (.exchange m.processImage.outputs answers.exchange)).OnBus := by
    refine h.call fun mode hknows => ⟨mode, ?_, hknows⟩
    have hcyclic : m.state = .op ∨ m.state = .safeOp := by
      simpa [exchanging] using hstate
    rcases hcyclic with hop | hsafeOp
    · have hscanned := hknows.scanned (by simp [hop]) (by simp [hop])
      have hlevel := hknows.level .op (by rw [hop]; rfl)
      simp [busProtocol, hscanned, hlevel, SlaveState.cyclic]
    · have hscanned := hknows.scanned (by simp [hsafeOp]) (by simp [hsafeOp])
      have hlevel := hknows.level .safeOp (by rw [hsafeOp]; rfl)
      simp [busProtocol, hscanned, hlevel, SlaveState.cyclic]
  exact hcall.congr rfl rfl

theorem OnBus.clockUpdated (h : m.OnBus) (hclock : m.ClockUpdated m') : m'.OnBus := by
  rcases hclock.transport with hsame | ⟨result, hread⟩
  · exact h.congr hsame hclock.state
  · have hcall : (m.call (.readDcTime result)).OnBus := h.ask fun _ => rfl
    exact hcall.congr hread hclock.state

theorem OnBus.exchange {answers : ExchangeAnswers} {r : PlcResult Unit × EthercatMaster}
    (h : m.OnBus) (hr : m.exchange b answers = .ok r) : r.2.OnBus := by
  cases exchange_cases hr with
  | refused _ heq => rwa [heq]
  | failed hstate e _ heq =>
    rw [heq]
    exact h.exchanged hstate answers
  | tripped hstate wkc _ _ errors _ _ heq =>
    rw [heq]
    exact (h.exchanged hstate answers).leave rfl (.inl rfl)
  | mismatched hstate wkc _ _ errors _ _ _ hclock =>
    have hcounted : (((m.exchanged answers).countCycle wkc).mismatched errors).OnBus :=
      (h.exchanged hstate answers).congr rfl rfl
    exact hcounted.clockUpdated hclock
  | matched hstate wkc _ _ _ hclock =>
    have hcounted : (((m.exchanged answers).countCycle wkc).matched answers.rttUs).OnBus :=
      (h.exchanged hstate answers).congr rfl rfl
    exact hcounted.clockUpdated hclock

theorem OnBus.apply {op : MasterOperation} (h : m.OnBus) (hop : op.apply b m = .ok m') :
    m'.OnBus := by
  cases op with
  | init answers =>
    obtain ⟨r, hr, hret⟩ := bind_eq_ok.1 hop
    cases hret
    exact h.init hr
  | scanSlaves answer =>
    obtain ⟨r, hr, hret⟩ := bind_eq_ok.1 hop
    cases hret
    exact h.scanSlaves hr
  | exchange answers =>
    obtain ⟨r, hr, hret⟩ := bind_eq_ok.1 hop
    cases hret
    exact h.exchange hr
  | configureSlaves answer =>
    cases hop
    exact h.advance ordered_init answer
  | enterSafeOp answer | enterOp answer =>
    cases hop
    exact h.advance (ordered_of_command rfl (.inr rfl) rfl) answer
  | configureDc dcTime answer =>
    cases hop
    exact h.configureDc dcTime answer
  | sdoRead request answer =>
    cases hop
    rw [sdoRead]
    split
    · exact h
    · exact h.ask fun _ => rfl
  | sdoWrite request answer =>
    cases hop
    rw [sdoWrite]
    split
    · exact h
    · split
      · exact h
      · exact h.ask fun _ => rfl
  | shutdown answers =>
    cases hop
    exact h.shutdown answers

theorem onBus_run {ops : List MasterOperation} (h : run b config ops = .ok m) : m.OnBus := by
  induction ops using List.reverseRecOn generalizing m with
  | nil =>
    cases h
    refine ⟨_, rfl, fun command hcommand => ?_, fun hoffline => absurd rfl hoffline⟩
    cases hcommand
  | append_singleton ops op ih =>
    rw [run_concat] at h
    obtain ⟨m', hm', happly⟩ := bind_eq_ok.1 h
    exact (ih hm').apply happly

/-- In every run of the master, whatever the transport answers, the calls to it keep to the protocol
of the bus, and the slaves are at the level that the state of the master stands for. -/
theorem bus_protocol {ops : List MasterOperation} (h : run b config ops = .ok m) :
    ∃ mode, busProtocol.after m.transport = some mode ∧ m.Knows mode :=
  onBus_run h

/-- Two exchanges on the small bus, the second after the slaves have been brought up again without
a shutdown. -/
theorem bus_protocol_restarted : ∃ m,
    run .release threeErrors [.init twoByteBus, .exchange (wkcAnswer 1), .init twoByteBus,
      .exchange (wkcAnswer 1)] = .ok m ∧
      ∃ mode, busProtocol.after m.transport = some mode ∧ m.Knows mode := by
  have hok : (run .release threeErrors [.init twoByteBus, .exchange (wkcAnswer 1),
      .init twoByteBus, .exchange (wkcAnswer 1)]).isOk = true := rfl
  cases h : run .release threeErrors [.init twoByteBus, .exchange (wkcAnswer 1),
      .init twoByteBus, .exchange (wkcAnswer 1)] with
  | ok m => exact ⟨m, rfl, bus_protocol h⟩
  | error e =>
    rw [h] at hok
    cases hok

/-! ## After a trip -/

open Watched (Closed restarts)

/-- Since then the master has been out of service and has made mute calls only. -/
structure Quiet (m m' : EthercatMaster) : Prop where
  closed : Closed m'
  calls : ∃ calls, m'.transport = m.transport ++ calls ∧ ∀ c ∈ calls, c.mute = true

variable {m'' : EthercatMaster} {op : MasterOperation}

theorem Quiet.refl (h : Closed m) : Quiet m m :=
  ⟨h, [], (List.append_nil _).symm, fun _ hmem => absurd hmem List.not_mem_nil⟩

theorem Quiet.trans (h : Quiet m m') (h' : Quiet m' m'') : Quiet m m'' := by
  obtain ⟨-, calls, htransport, hmute⟩ := h
  obtain ⟨hclosed, more, htransport', hmute'⟩ := h'
  refine ⟨hclosed, calls ++ more, ?_, ?_⟩
  · rw [htransport', htransport, List.append_assoc]
  · intro c hmem
    rcases List.mem_append.1 hmem with hold | hnew
    · exact hmute c hold
    · exact hmute' c hnew

/-- One mute call. -/
theorem Quiet.call (h : Closed m') {c : TransportCall} (hc : c.mute = true)
    (htransport : m'.transport = m.transport ++ [c]) : Quiet m m' := by
  refine ⟨h, [c], htransport, ?_⟩
  intro c' hmem
  rwa [List.mem_singleton.1 hmem]

theorem Quiet.advance (h : Closed m) {source target : MasterState} {action : String}
    {command : SlaveState} (hsource : source ≠ .fault ∧ source ≠ .offline)
    (answer : PlcResult Unit) : Quiet m (advance source action command target m answer).2 := by
  have hrefused : EthercatMaster.advance source action command target m answer =
      (.error (.fieldbusError s!"Cannot {action} from state {m.state.display}"), m) :=
    if_pos (h.ne hsource)
  rw [hrefused]
  exact .refl h

theorem Quiet.configureDcSlaves (h : Closed m) (answer : DcSlaveConfig → PlcResult Unit)
    (slaves : List DcSlaveConfig) : Quiet m (configureDcSlaves answer m slaves).2 := by
  induction slaves generalizing m with
  | nil => exact .refl h
  | cons slave rest ih =>
    have hcall : Quiet m (m.call (.configureSlaveDc slave (answer slave))) := .call h rfl rfl
    rw [EthercatMaster.configureDcSlaves]
    split
    · split
      · exact hcall
      · exact hcall.trans (ih hcall.closed)
    · exact ih h

theorem Quiet.configureDc (h : Closed m) (dcTime : PlcResult (BitVec 64))
    (answer : DcSlaveConfig → PlcResult Unit) : Quiet m (m.configureDc dcTime answer).2 := by
  rw [EthercatMaster.configureDc]
  split
  · exact .refl h
  · have hcall : Quiet m (m.call (.readDcTime dcTime)) := .call h rfl rfl
    cases dcTime with
    | error e => exact hcall
    | ok initialTime =>
      have hload : Quiet m { m.call (.readDcTime (.ok initialTime)) with
          dc := m.dc.initializeAt initialTime } := .call h rfl rfl
      exact hload.trans (Quiet.configureDcSlaves hload.closed answer _)

/-- The shutdown has no state to step down from, and only closes the transport. -/
theorem Quiet.shutdown (h : Closed m) (answers : ShutdownAnswers) :
    Quiet m (m.shutdown answers).2 := by
  have hshutdown : m.shutdown answers = m.closeTransport answers.close := by
    rw [EthercatMaster.shutdown, h.stepDown answers.safeOp ⟨by simp, by simp⟩]
    change andThen (m.stepDown .safeOp .preOp .preOp answers.preOp) _ = _
    rw [h.stepDown answers.preOp ⟨by simp, by simp⟩]
    change andThen (m.stepDown .preOp .init .init answers.init) _ = _
    rw [h.stepDown answers.init ⟨by simp, by simp⟩]
    rfl
  rw [hshutdown]
  cases answers.close with
  | error e => exact .call h rfl rfl
  | ok u => exact .call (.inr rfl) rfl rfl

theorem Quiet.apply (h : Closed m) (hop : op.apply b m = .ok m') (hrestarts : restarts op = false) :
    Quiet m m' := by
  cases op with
  | init answers | scanSlaves answer => cases hrestarts
  | configureSlaves answer | enterSafeOp answer | enterOp answer =>
    cases hop
    exact .advance h (by simp) answer
  | configureDc dcTime answer =>
    cases hop
    exact .configureDc h dcTime answer
  | exchange answers =>
    obtain ⟨r, hr, hret⟩ := bind_eq_ok.1 hop
    cases hret
    rw [EthercatMaster.exchange, h.not_exchanging] at hr
    cases hr
    exact .refl h
  | sdoRead request answer =>
    cases hop
    rw [sdoRead]
    split
    · exact .refl h
    · exact .call h rfl rfl
  | sdoWrite request answer =>
    cases hop
    rw [sdoWrite]
    split
    · exact .refl h
    · split
      · exact .refl h
      · exact .call h rfl rfl
  | shutdown answers =>
    cases hop
    exact .shutdown h answers

theorem quiet_foldlM (h : Closed m) {later : List MasterOperation}
    (hlater : later.foldlM (MasterOperation.apply b) m = .ok m')
    (hscan : ∀ op ∈ later, restarts op = false) : Quiet m m' := by
  induction later generalizing m with
  | nil =>
    cases hlater
    exact .refl h
  | cons op rest ih =>
    rw [List.foldlM_cons] at hlater
    obtain ⟨m₁, hop, hrest⟩ := bind_eq_ok.1 hlater
    have hfirst := Quiet.apply h hop (hscan op List.mem_cons_self)
    exact hfirst.trans
      (ih hfirst.closed hrest fun op' hmem => hscan op' (List.mem_cons_of_mem _ hmem))

/-- When the supervision has tripped, the slaves hear neither a command nor process data, whatever
is asked of the master, until a scan. -/
theorem quiet_after_trip {ops later : List MasterOperation} (h : run b config ops = .ok m)
    (hfault : m.state = .fault) (hlater : run b config (ops ++ later) = .ok m')
    (hscan : ∀ op ∈ later, restarts op = false) : Quiet m m' := by
  rw [run_append, h] at hlater
  exact quiet_foldlM (.inl hfault) hlater hscan

/-- A bus that trips at its third mismatch. -/
def trippedBus : List MasterOperation :=
  [.init twoByteBus, .exchange (wkcAnswer 0), .exchange (wkcAnswer 0), .exchange (wkcAnswer 0)]

/-- The shutdown of a bus that has tripped only closes the transport. -/
theorem quiet_after_trip_shutdown : ∃ m m',
    run .release threeErrors trippedBus = .ok m ∧ m.state = .fault ∧
      run .release threeErrors (trippedBus ++
        [.enterOp (.ok ()), .shutdown ⟨.ok (), .ok (), .ok (), .ok ()⟩]) = .ok m' ∧
      Quiet m m' := by
  have hfault : (run .release threeErrors trippedBus).map (·.state) = .ok .fault := rfl
  have hok : (run .release threeErrors (trippedBus ++
      [.enterOp (.ok ()), .shutdown ⟨.ok (), .ok (), .ok (), .ok ()⟩])).isOk = true := rfl
  cases h : run .release threeErrors trippedBus with
  | error e =>
    rw [h] at hfault
    cases hfault
  | ok m =>
    cases hlater : run .release threeErrors (trippedBus ++
        [.enterOp (.ok ()), .shutdown ⟨.ok (), .ok (), .ok (), .ok ()⟩]) with
    | error e =>
      rw [hlater] at hok
      cases hok
    | ok m' =>
      rw [h] at hfault
      have hstate : m.state = .fault := by injection hfault
      exact ⟨m, m', rfl, hstate, rfl, quiet_after_trip h hstate hlater (by simp [restarts])⟩

end EthercatMaster

end VirtualPlc.Fieldbus
