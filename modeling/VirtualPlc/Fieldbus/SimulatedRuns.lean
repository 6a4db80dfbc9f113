import VirtualPlc.Fieldbus.SimulatedBus

/-!
# Runs on the simulated bus

The simulated transport takes every command, so it follows what an observer of the bus knows
(`Served.level`). It counts the slaves as the master does (`Holds.calculateWkc_ok`). Together with
true answers this gives the invariant of a run (`Sound`): no fault, no error counted, and slaves in
the state that the master is in.
-/

set_option autoImplicit false

namespace VirtualPlc.Fieldbus

open VirtualPlc.Runtime VirtualPlc.Word VirtualPlc.Control

variable {b : Build} {sine : BitVec 64 → BitVec 16} {t t' : SimulatedTransport}

/-! ## The state of the slaves -/

theorem setState_closed (h : t.isOpen = false) (state : SlaveState) :
    t.setState state = (.error SimulatedTransport.notOpen, t) := by
  rw [SimulatedTransport.setState, h]
  rfl

theorem setState_open (h : t.isOpen = true) (state : SlaveState) :
    t.setState state = (.ok (), { t with currentState := state }) := by
  rw [SimulatedTransport.setState, h]
  rfl

/-- The slaves are where an observer of one more call takes them to be. -/
theorem serve_level {c : TransportCall} (hserve : t.serve b sine c = .ok (c, t'))
    {mode mode' : BusMode} (hlevel : t.currentState = mode.level)
    (hstep : busProtocol.step mode c = some mode') : t'.currentState = mode'.level := by
  cases c with
  | scanSlaves result =>
    cases hstep
    have hafter : t.scanSlaves.2 = t' := congrArg Prod.snd (Except.ok.inj hserve)
    rw [← hafter, SimulatedTransport.scanSlaves]
    split <;> exact hlevel
  | setState target result =>
    have hresult : (t.setState target).1 = result := by
      have hcall := congrArg Prod.fst (Except.ok.inj hserve)
      injection hcall
    have hafter : (t.setState target).2 = t' := congrArg Prod.snd (Except.ok.inj hserve)
    obtain ⟨-, hstep⟩ := Option.ite_none_right_eq_some.1 hstep
    rw [← hafter]
    rw [← hresult] at hstep
    -- a closed transport leaves the slaves where they are
    cases hopen : t.isOpen with
    | false =>
      rw [setState_closed hopen] at hstep ⊢
      cases hstep
      exact hlevel
    | true =>
      rw [setState_open hopen] at hstep ⊢
      cases hstep
      rfl
  | configureSlaveDc config result =>
    cases hstep
    cases hserve
    exact hlevel
  | readDcTime result =>
    cases hstep
    obtain ⟨⟨result', t₁⟩, hread, heq⟩ := bind_eq_ok.1 hserve
    cases heq
    obtain ⟨dcTime, -, heq⟩ := bind_eq_ok.1 hread
    cases heq
    exact hlevel
  | exchange outputs result =>
    obtain ⟨-, hstep⟩ := Option.ite_none_right_eq_some.1 hstep
    cases hstep
    obtain ⟨⟨result', inputs, t₁⟩, hexchange, heq⟩ := bind_eq_ok.1 hserve
    cases heq
    cases hopen : t.isOpen with
    | false =>
      rw [exchange_closed hopen] at hexchange
      cases hexchange
      exact hlevel
    | true =>
      obtain ⟨n, wkc, -, hanswer⟩ := exchange_ok hopen hexchange
      rw [hanswer] at hexchange
      cases hexchange
      exact hlevel
  | sdoRead request result | sdoWrite request result =>
    cases hstep
    cases hserve
    exact hlevel
  | close result =>
    have hafter : t.close.2 = t' := congrArg Prod.snd (Except.ok.inj hserve)
    rw [← hafter]
    cases result with
    | error e =>
      cases hstep
      exact hlevel
    | ok u =>
      cases hstep
      exact hlevel

theorem Served.level {calls : List TransportCall} (h : Served b sine t calls t')
    {mode mode' : BusMode} (hlevel : t.currentState = mode.level)
    (hreads : busProtocol.reads mode calls = some mode') : t'.currentState = mode'.level := by
  induction h generalizing mode with
  | nil t =>
    cases hreads
    exact hlevel
  | cons hserve _ ih =>
    rw [Acceptor.reads_cons] at hreads
    obtain ⟨mode₁, hstep, hrest⟩ := Option.bind_eq_some_iff.1 hreads
    exact ih (serve_level hserve hlevel hstep) hrest

/-! ## The working counter -/

theorem countSize_ok {wkc weight r : BitVec 16} {size : Nat}
    (h : countSize b wkc size weight = .ok r) : r = wkc + if 0 < size then weight else 0 := by
  unfold countSize at h
  split at h
  · next hsize =>
    rw [if_pos hsize]
    rcases Build.result_eq_ok h with ⟨-, hr⟩ | hr <;> exact hr
  · next hsize =>
    cases h
    rw [if_neg hsize]
    simp

/-- What the sizes of a slave add to the working counter. -/
def wkcStep (inputSize outputSize : Nat) : BitVec 16 :=
  (if 0 < inputSize then 1 else 0) + if 0 < outputSize then 2 else 0

/-- A count that does not panic adds up what each slave adds, in every build. -/
theorem foldlM_count_ok {count : BitVec 16 → SlaveConfig → Except Failure (BitVec 16)}
    (sizes : SlaveConfig → Nat × Nat)
    (hcount : ∀ wkc slave r, count wkc slave = .ok r →
      r = wkc + wkcStep (sizes slave).1 (sizes slave).2)
    {slaves : List SlaveConfig} {wkc r : BitVec 16} (h : slaves.foldlM count wkc = .ok r) :
    r = wkc + (slaves.map fun slave => wkcStep (sizes slave).1 (sizes slave).2).sum := by
  induction slaves generalizing wkc with
  | nil =>
    cases h
    simp
  | cons slave rest ih =>
    rw [List.foldlM_cons] at h
    obtain ⟨next, hnext, hrest⟩ := bind_eq_ok.1 h
    rw [ih hrest, hcount _ _ _ hnext, List.map_cons, List.sum_cons, BitVec.add_assoc]

theorem addWkc_ok {wkc r : BitVec 16} {slave : SlaveConfig} (h : addWkc b wkc slave = .ok r) :
    r = wkc + wkcStep slave.inputSize slave.outputSize := by
  obtain ⟨next, hnext, hrest⟩ := bind_eq_ok.1 h
  rw [countSize_ok hrest, countSize_ok hnext, wkcStep, BitVec.add_assoc]

theorem countPdos_ok {wkc r : BitVec 16} {slave : SlaveConfig} (h : countPdos b wkc slave = .ok r) :
    r = wkc + wkcStep slave.calculateInputSize slave.calculateOutputSize := by
  obtain ⟨next, hnext, hrest⟩ := bind_eq_ok.1 h
  rw [countSize_ok hrest, countSize_ok hnext, wkcStep, BitVec.add_assoc]

/-- The working counter of the slaves by their PDOs. -/
def pdoCount (slaves : List SlaveConfig) : BitVec 16 :=
  (slaves.map fun slave => wkcStep slave.calculateInputSize slave.calculateOutputSize).sum

theorem foldlM_countPdos {slaves : List SlaveConfig} {r : BitVec 16}
    (h : slaves.foldlM (countPdos b) 0 = .ok r) : r = pdoCount slaves := by
  have hsum := foldlM_count_ok
    (fun slave => (slave.calculateInputSize, slave.calculateOutputSize))
    (fun _ _ _ => countPdos_ok) h
  simpa [pdoCount] using hsum

/-- The master counts the slaves that it holds as the transport counts its own. -/
theorem Holds.calculateWkc_ok {network : NetworkConfig} {slaves : List SlaveConfig}
    (hholds : Holds network slaves) {r : BitVec 16}
    (h : Fieldbus.calculateWkc b network.slaves = .ok r) :
    r = pdoCount slaves := by
  have hcount := foldlM_count_ok (fun slave => (slave.inputSize, slave.outputSize))
    (fun _ _ _ => addWkc_ok) h
  have hsum : r = (network.slaves.map fun slave =>
      wkcStep slave.inputSize slave.outputSize).sum := by
    simpa using hcount
  have hsizes : (network.slaves.map fun slave => wkcStep slave.inputSize slave.outputSize) =
      network.slaves.map fun slave =>
        wkcStep slave.calculateInputSize slave.calculateOutputSize := by
    apply List.map_congr_left
    intro slave hmem
    obtain ⟨hinput, houtput⟩ := hholds.sizes slave hmem
    rw [hinput, houtput]
  rw [hsum, hsizes]
  exact (perm_map_of_unplaced _ hholds.perm fun _ => rfl).sum_eq

/-! ## A master without trouble -/

/-- The master has counted no error and knows the working counter of these slaves. On a transport
that is closed it has not come further than INIT. -/
structure Untroubled (slaves : List SlaveConfig) (isOpen : Bool) (m : EthercatMaster) : Prop where
  errors : m.consecutiveWkcErrors = 0
  wkcErrors : m.stats.wkcErrors = 0
  noFault : m.state ≠ .fault
  expected : isOpen = true → m.state ≠ .offline → m.processImage.expectedWkc = pdoCount slaves
  closed : isOpen = false → m.state = .offline ∨ m.state = .init

namespace Untroubled

open EthercatMaster

variable {slaves : List SlaveConfig} {isOpen : Bool} {m m' : EthercatMaster}

theorem congr (h : Untroubled slaves isOpen m) (hstate : m'.state = m.state)
    (herrors : m'.consecutiveWkcErrors = m.consecutiveWkcErrors)
    (hstats : m'.stats.wkcErrors = m.stats.wkcErrors)
    (himage : m'.processImage.expectedWkc = m.processImage.expectedWkc) :
    Untroubled slaves isOpen m' where
  errors := herrors.trans h.errors
  wkcErrors := hstats.trans h.wkcErrors
  noFault := by rw [hstate]; exact h.noFault
  expected := by rw [hstate, himage]; exact h.expected
  closed := by rw [hstate]; exact h.closed

/-- A command takes an open bus from one state with a working counter to another. -/
theorem commanded (h : Untroubled slaves true m) {target : MasterState} (htarget : target ≠ .fault)
    (hsource : m.state ≠ .offline) (hstate : m'.state = target)
    (herrors : m'.consecutiveWkcErrors = m.consecutiveWkcErrors) (hstats : m'.stats = m.stats)
    (himage : m'.processImage = m.processImage) : Untroubled slaves true m' where
  errors := herrors.trans h.errors
  wkcErrors := by rw [hstats]; exact h.wkcErrors
  noFault := by rw [hstate]; exact htarget
  expected := fun hopen _ => by rw [himage]; exact h.expected hopen hsource
  closed := fun hclosed => by cases hclosed

theorem advance (h : Untroubled slaves t.isOpen m) {source target : MasterState} (action : String)
    (command : SlaveState) (hsource : source ≠ .offline) (htarget : target ≠ .fault) :
    Untroubled slaves t.isOpen
      (advance source action command target m (t.setState command).1).2 := by
  unfold EthercatMaster.advance
  split
  · exact h
  · next hstate =>
    obtain rfl : m.state = source := not_not.1 hstate
    cases hopen : t.isOpen with
    | false =>
      rw [hopen] at h
      rw [setState_closed hopen]
      exact h.congr rfl rfl rfl rfl
    | true =>
      rw [hopen] at h
      rw [setState_open hopen]
      exact h.commanded htarget hsource rfl rfl rfl rfl

theorem stepDown (h : Untroubled slaves t.isOpen m) {source target : MasterState}
    (command : SlaveState) (hsource : source ≠ .offline) (htarget : target ≠ .fault) :
    Untroubled slaves t.isOpen (stepDown source command target m (t.setState command).1).2 := by
  unfold EthercatMaster.stepDown
  split
  · next hstate =>
    obtain rfl : m.state = source := hstate
    cases hopen : t.isOpen with
    | false =>
      rw [hopen] at h
      rw [setState_closed hopen]
      exact h.congr rfl rfl rfl rfl
    | true =>
      rw [hopen] at h
      rw [setState_open hopen]
      exact h.commanded htarget hsource rfl rfl rfl rfl
  · exact h

theorem andThen {step : PlcResult Unit × EthercatMaster}
    {f : EthercatMaster → PlcResult Unit × EthercatMaster} (hstep : Untroubled slaves isOpen step.2)
    (hf : ∀ m' : EthercatMaster, Untroubled slaves isOpen m' → Untroubled slaves isOpen (f m').2) :
    Untroubled slaves isOpen (andThen step f).2 := by
  obtain ⟨result, m'⟩ := step
  cases result with
  | error e => exact hstep
  | ok u => exact hf m' hstep

theorem configureDcSlaves (h : Untroubled slaves isOpen m) (answer : DcSlaveConfig → PlcResult Unit)
    (clocks : List DcSlaveConfig) :
    Untroubled slaves isOpen (configureDcSlaves answer m clocks).2 := by
  induction clocks generalizing m with
  | nil => exact h
  | cons clock rest ih =>
    rw [EthercatMaster.configureDcSlaves]
    split
    · split
      · exact h.congr rfl rfl rfl rfl
      · exact ih (h.congr rfl rfl rfl rfl)
    · exact ih h

theorem configureDc (h : Untroubled slaves isOpen m) (dcTime : PlcResult (BitVec 64))
    (answer : DcSlaveConfig → PlcResult Unit) :
    Untroubled slaves isOpen (m.configureDc dcTime answer).2 := by
  rw [EthercatMaster.configureDc]
  split
  · exact h
  · cases dcTime with
    | error e => exact h.congr rfl rfl rfl rfl
    | ok initialTime =>
      dsimp only
      apply configureDcSlaves
      exact h.congr rfl rfl rfl rfl

/-- Adding slaves that have been found changes the network and the clocks. -/
theorem foldl_addScanned (m : EthercatMaster) (found : List SlaveConfig) :
    (found.foldl addScanned m).consecutiveWkcErrors = m.consecutiveWkcErrors ∧
      (found.foldl addScanned m).stats = m.stats ∧ (found.foldl addScanned m).state = m.state := by
  induction found generalizing m with
  | nil => exact ⟨rfl, rfl, rfl⟩
  | cons slave rest ih => exact ih (m.addScanned slave)

theorem scanSlaves (h : Untroubled t.slaves t.isOpen m) (hdistinct : (positions t.slaves).Nodup)
    {r : PlcResult Nat × EthercatMaster} (hr : m.scanSlaves b t.scanSlaves.1 = .ok r) :
    Untroubled t.slaves t.isOpen r.2 ∧ r.2.state = .init := by
  cases hopen : t.isOpen with
  | false =>
    have hanswer : t.scanSlaves.1 = .error SimulatedTransport.notOpen := by
      rw [SimulatedTransport.scanSlaves, hopen]
      rfl
    rw [hanswer] at hr
    cases hr
    refine ⟨⟨h.errors, h.wkcErrors, ?_, ?_, fun _ => .inr rfl⟩, rfl⟩
    · intro hfault
      cases hfault
    · intro hopened
      cases hopened
  | true =>
    have hanswer : t.scanSlaves.1 = .ok t.slaves := by
      rw [SimulatedTransport.scanSlaves, hopen]
      rfl
    rw [hanswer, EthercatMaster.scanSlaves] at hr
    obtain ⟨expectedWkc, hexpected, hr⟩ := bind_eq_ok.1 hr
    have hholds : Holds (t.slaves.foldl addScanned
        (m.beginScan.call (.scanSlaves (.ok t.slaves)))).network t.slaves := by
      rw [network_foldl_addScanned]
      exact Holds.new.foldl_addSlave hdistinct
    obtain ⟨herrors, hstats, hstate⟩ :=
      foldl_addScanned (m.beginScan.call (.scanSlaves (.ok t.slaves))) t.slaves
    cases hr
    refine ⟨⟨?_, ?_, ?_, ?_, ?_⟩, hstate⟩
    · exact herrors.trans h.errors
    · rw [hstats]
      exact h.wkcErrors
    · rw [hstate]
      intro hfault
      cases hfault
    · intro _ _
      exact hholds.calculateWkc_ok hexpected
    · intro hclosed
      cases hclosed

theorem closeTransport (h : Untroubled slaves isOpen m) (isOpen' : Bool) :
    Untroubled slaves isOpen' (m.closeTransport (.ok ())).2 where
  errors := h.errors
  wkcErrors := h.wkcErrors
  noFault := fun hfault => by cases hfault
  expected := fun _ hoffline => absurd rfl hoffline
  closed := fun _ => .inl rfl

theorem updateDc_stats {answers : ExchangeAnswers} {r : PlcResult Unit × EthercatMaster}
    (h : m.updateDc b answers = .ok r) : r.2.stats = m.stats := by
  rw [updateDc] at h
  split at h
  · dsimp only at h
    split at h
    · cases h
      rfl
    · obtain ⟨⟨deviation, dc⟩, -, h⟩ := bind_eq_ok.1 h
      cases h
      rfl
  · cases h
    rfl

/-- An exchange with the count of the slaves has the working counter that the master expects. -/
theorem exchange_eq (h : Untroubled slaves true m) (hstate : m.exchanging = true)
    {answers : ExchangeAnswers} (hanswer : answers.exchange = .ok (pdoCount slaves)) :
    m.exchange b answers =
      (((m.exchanged answers).countCycle (pdoCount slaves)).matched answers.rttUs).updateDc b
        answers := by
  have honline : m.state ≠ .offline := by
    intro hoffline
    rw [exchanging, hoffline] at hstate
    cases hstate
  have hsame : ((m.exchanged answers).countCycle (pdoCount slaves)).processImage.expectedWkc =
      pdoCount slaves := h.expected rfl honline
  simp only [EthercatMaster.exchange, hstate, hanswer, Bool.not_true, Bool.false_eq_true,
    if_false, hsame, ne_eq, not_true_eq_false]

/-- An exchange is refused, or it is as expected. -/
theorem exchange (h : Untroubled slaves isOpen m) {answers : ExchangeAnswers}
    (hanswer : m.exchanging = true →
      isOpen = true ∧ answers.exchange = .ok (pdoCount slaves))
    {r : PlcResult Unit × EthercatMaster} (hr : m.exchange b answers = .ok r) :
    Untroubled slaves isOpen r.2 := by
  cases hstate : m.exchanging with
  | false =>
    rw [EthercatMaster.exchange, hstate] at hr
    cases hr
    exact h
  | true =>
    obtain ⟨rfl, hcount⟩ := hanswer hstate
    rw [h.exchange_eq hstate hcount] at hr
    obtain ⟨-, hclock⟩ := updateDc_ok hr
    have hstats := updateDc_stats hr
    refine ⟨?_, ?_, ?_, ?_, ?_⟩
    · rw [hclock.errors]
      rfl
    · rw [hstats]
      exact h.wkcErrors
    · rw [hclock.state]
      exact h.noFault
    · rw [hclock.image, hclock.state]
      exact h.expected
    · rw [hclock.state]
      exact h.closed

end Untroubled

/-! ## Runs -/

/-- The invariant of a run: true answers so far, slaves at the level that the bus protocol has taken
them to, and a master without trouble. -/
structure Sound (b : Build) (sine : BitVec 64 → BitVec 16) (start : SimulatedTransport)
    (s : SimulatedBus) : Prop where
  served : Served b sine start s.master.transport s.transport
  onBus : s.master.OnBus
  slaves : s.transport.slaves = start.slaves
  untroubled : Untroubled s.transport.slaves s.transport.isOpen s.master

namespace SimulatedBus

variable {s s' : SimulatedBus} {start : SimulatedTransport} {op : BusOperation}

/-- An exchange that the master makes is answered with the count of the slaves and with simulated
inputs. -/
theorem exchange_answer {rttUs : BitVec 32} {elapsed : Duration} {m' : EthercatMaster}
    (hclosed : s.transport.isOpen = false → s.master.state = .offline ∨ s.master.state = .init)
    (hdrive : s.drive b sine (.ask (.exchange rttUs elapsed)) = .ok m') {calls : List TransportCall}
    (htransport : m'.transport = s.master.transport ++ calls)
    (hserved : Served b sine s.transport calls t') (hstate : s.master.exchanging = true) :
    s.transport.isOpen = true ∧
      (s.exchangeAnswers b sine rttUs elapsed).exchange = .ok (pdoCount s.transport.slaves) ∧
      ∃ wave, (s.exchangeAnswers b sine rttUs elapsed).received = fun i =>
        (simulateInputs wave s.master.processImage.outputs
          s.master.processImage.inputs).getD i 0 := by
  have hopen : s.transport.isOpen = true := by
    cases hopen : s.transport.isOpen with
    | true => rfl
    | false =>
      rcases hclosed hopen with hoffline | hinit
      · rw [EthercatMaster.exchanging, hoffline] at hstate
        cases hstate
      · rw [EthercatMaster.exchanging, hinit] at hstate
        cases hstate
  refine ⟨hopen, ?_⟩
  obtain ⟨r, hr, hret⟩ := bind_eq_ok.1 hdrive
  cases hret
  rcases exchange_transport hr with ⟨hrefused, -⟩ | ⟨clock, hcalls, -⟩
  · rw [hstate] at hrefused
    cases hrefused
  · obtain rfl := List.append_cancel_left (htransport.symm.trans hcalls)
    -- the transport has served this exchange, so it did not panic
    cases hserved with
    | cons hserve _ =>
      obtain ⟨⟨result, inputs, t₁⟩, hexchange, -⟩ := bind_eq_ok.1 hserve
      obtain ⟨n, wkc, hcount, hanswer⟩ := exchange_ok hopen hexchange
      rw [exchangeAnswers, hanswer, foldlM_countPdos hcount]
      exact ⟨rfl, sine n, rfl⟩

theorem onBus_drive {m' : EthercatMaster} (h : s.master.OnBus)
    (hdrive : s.drive b sine op = .ok m') : m'.OnBus := by
  cases op with
  | ask request => exact EthercatMaster.OnBus.apply h hdrive
  | setOutputs outputs =>
    obtain ⟨image, -, hret⟩ := bind_eq_ok.1 hdrive
    cases hret
    exact h.congr rfl rfl

/-- A step down is not asked for, or the transport is open and takes it. -/
theorem stepDown_succeeds {m : EthercatMaster} (h : Untroubled t.slaves t.isOpen m)
    {source target : MasterState} {command : SlaveState} (hsource : source ≠ .offline)
    (hinit : source ≠ .init) :
    (EthercatMaster.stepDown source command target m (t.setState command).1).1 = .ok () := by
  unfold EthercatMaster.stepDown
  split
  · next hstate =>
    cases hopen : t.isOpen with
    | false =>
      rcases h.closed hopen with hoffline | hbegun
      · exact absurd (hstate.symm.trans hoffline) hsource
      · exact absurd (hstate.symm.trans hbegun) hinit
    | true =>
      rw [setState_open hopen]
  · rfl

theorem andThen_of_ok {step : PlcResult Unit × EthercatMaster}
    {f : EthercatMaster → PlcResult Unit × EthercatMaster} (h : step.1 = .ok ()) :
    EthercatMaster.andThen step f = f step.2 := by
  obtain ⟨result, m'⟩ := step
  cases h
  rfl

/-- A shutdown closes the transport: where that is open the master steps down first, and where it is
closed there is nothing to step down from. -/
theorem shutdown_closes (b : Build) (sine : BitVec 64 → BitVec 16) {m : EthercatMaster}
    (h : Untroubled t.slaves t.isOpen m) {answers : ShutdownAnswers}
    (hanswers : answers = ⟨(t.setState .safeOp).1, (t.setState .preOp).1, (t.setState .init).1,
      t.close.1⟩) :
    ∃ m', m.shutdown answers = m'.closeTransport (.ok ()) ∧
      Untroubled t.slaves t.isOpen m' ∧ Asks b sine (Clocked t) (Like t) m m' := by
  rw [hanswers, EthercatMaster.shutdown,
    andThen_of_ok (stepDown_succeeds h (by simp) (by simp))]
  have hsafeOp : Untroubled t.slaves t.isOpen
      (EthercatMaster.stepDown .op .safeOp .safeOp m (t.setState .safeOp).1).2 :=
    h.stepDown _ (by simp) (by simp)
  rw [andThen_of_ok (stepDown_succeeds hsafeOp (by simp) (by simp))]
  have hpreOp := hsafeOp.stepDown (t := t) .preOp (by simp : MasterState.safeOp ≠ _)
    (by simp : MasterState.preOp ≠ _)
  rw [andThen_of_ok (stepDown_succeeds hpreOp (by simp) (by simp))]
  have hinit := hpreOp.stepDown (t := t) .init (by simp : MasterState.preOp ≠ _)
    (by simp : MasterState.init ≠ _)
  refine ⟨_, rfl, hinit, ?_⟩
  have hfirst : Asks b sine (Clocked t) (Like t) m
      (EthercatMaster.stepDown .op .safeOp .safeOp m (t.setState .safeOp).1).2 :=
    Asks.mono (asks_stepDown stable_clocked _ _ _ m) fun t' ht => ht.toLike
  exact hfirst.trans ((asks_stepDown stable_like .safeOp .preOp .preOp _).trans
    (asks_stepDown stable_like .preOp .init .init _))

theorem untroubled_init {m : EthercatMaster} (h : Untroubled t.slaves t.isOpen m)
    (hdistinct : (positions t.slaves).Nodup) {answers : InitAnswers}
    (hscan : answers.scan = t.scanSlaves.1) (hpreOp : answers.preOp = (t.setState .preOp).1)
    (hsafeOp : answers.safeOp = (t.setState .safeOp).1) (hop : answers.op = (t.setState .op).1)
    {r : PlcResult Unit × EthercatMaster} (hr : m.init b answers = .ok r) :
    Untroubled t.slaves t.isOpen r.2 := by
  rw [EthercatMaster.init, hscan, hpreOp, hsafeOp, hop] at hr
  obtain ⟨⟨result, scanned⟩, hfound, hr⟩ := bind_eq_ok.1 hr
  obtain ⟨hscanned, -⟩ := h.scanSlaves hdistinct hfound
  cases result with
  | error e =>
    cases hr
    exact hscanned
  | ok count =>
    cases hr
    apply Untroubled.andThen (hscanned.advance _ _ (by simp) (by simp))
    intro m₁ h₁
    apply Untroubled.andThen (h₁.configureDc _ _)
    intro m₂ h₂
    apply Untroubled.andThen (h₂.advance _ _ (by simp) (by simp))
    intro m₃ h₃
    exact h₃.advance _ _ (by simp) (by simp)

/-- What a request other than an exchange and a shutdown leaves. -/
theorem untroubled_apply {request : BusRequest} {m' : EthercatMaster}
    (h : Untroubled s.transport.slaves s.transport.isOpen s.master)
    (hdistinct : (positions s.transport.slaves).Nodup)
    (hdrive : s.drive b sine (.ask request) = .ok m')
    (hexchange : ∀ rttUs elapsed, request ≠ .exchange rttUs elapsed)
    (hshutdown : request ≠ .shutdown) :
    Untroubled s.transport.slaves s.transport.isOpen m' := by
  cases request with
  | init =>
    obtain ⟨r, hr, hret⟩ := bind_eq_ok.1 hdrive
    cases hret
    exact untroubled_init h hdistinct rfl rfl rfl rfl hr
  | scanSlaves =>
    obtain ⟨r, hr, hret⟩ := bind_eq_ok.1 hdrive
    cases hret
    exact (h.scanSlaves hdistinct hr).1
  | configureSlaves | enterSafeOp | enterOp =>
    cases hdrive
    exact h.advance _ _ (by simp) (by simp)
  | configureDc =>
    cases hdrive
    exact h.configureDc _ _
  | exchange rttUs elapsed => exact absurd rfl (hexchange rttUs elapsed)
  | sdoRead request =>
    cases hdrive
    rw [EthercatMaster.sdoRead]
    split
    · exact h
    · exact h.congr rfl rfl rfl rfl
  | sdoWrite request =>
    cases hdrive
    rw [EthercatMaster.sdoWrite]
    split
    · exact h
    · split
      · exact h
      · exact h.congr rfl rfl rfl rfl
  | shutdown => exact absurd rfl hshutdown

/-- After a shutdown the transport is closed, and the master is offline. -/
theorem step_shutdown (h : Untroubled s.transport.slaves s.transport.isOpen s.master)
    (hstep : s.step b sine (.ask .shutdown) = .ok s') :
    s'.transport.isOpen = false ∧ s'.transport.slaves = s.transport.slaves ∧
      Untroubled s'.transport.slaves s'.transport.isOpen s'.master := by
  have hdrive := step_drive hstep
  obtain ⟨m', hshutdown, hm', hasks⟩ := shutdown_closes b sine h rfl
  have hmaster : s'.master = (m'.closeTransport (.ok ())).2 := by
    rw [← hshutdown]
    exact (Except.ok.inj hdrive).symm
  have hclosed : Asks b sine (fun t => t = s.transport)
      (fun t => t.isOpen = false ∧ t.slaves = s.transport.slaves) s.master s'.master := by
    obtain ⟨calls, htransport, hagrees⟩ := hasks
    have hbefore : Asks b sine (fun t => t = s.transport) (Like s.transport) s.master m' :=
      ⟨calls, htransport, fun t ht => hagrees t (clocked_self ht)⟩
    rw [hmaster]
    apply hbefore.trans
    apply Asks.call rfl
    intro t ht c' t' hserve
    cases hserve
    exact ⟨rfl, rfl, ht.slaves⟩
  obtain ⟨-, hopen, hslaves⟩ := step_asks hstep hclosed
  refine ⟨hopen, hslaves, ?_⟩
  rw [hmaster, hslaves]
  exact hm'.closeTransport _

theorem Sound.step (h : Sound b sine start s) (hdistinct : (positions start.slaves).Nodup)
    (hstep : s.step b sine op = .ok s') : Sound b sine start s' := by
  have hdrive := step_drive hstep
  obtain ⟨⟨calls, htransport, hserved⟩, hkept⟩ := answered_step hstep
  have hall : Served b sine start s'.master.transport s'.transport := by
    rw [htransport]
    exact h.served.append hserved
  have hbus := onBus_drive h.onBus hdrive
  rw [← h.slaves] at hdistinct
  cases op with
  | setOutputs outputs =>
    -- outputs go to the process image only
    have hsame : s'.transport = s.transport := hkept
    obtain ⟨image, hset, hret⟩ := bind_eq_ok.1 hdrive
    obtain ⟨image', hset', hwrites⟩ := ProcessImage.setOutputs_writes s.master.processImage outputs
    obtain rfl : image' = image := Except.ok.inj (hset'.symm.trans hset)
    have hmaster : s'.master = { s.master with processImage := image' } :=
      (Except.ok.inj hret).symm
    refine ⟨hall, hbus, by rw [hsame]; exact h.slaves, ?_⟩
    rw [hsame, hmaster]
    refine h.untroubled.congr rfl rfl rfl ?_
    rw [hwrites.frame]
  | ask request =>
    -- the close alone changes whether the transport is open
    by_cases hshutdown : request = .shutdown
    · subst hshutdown
      obtain ⟨-, hslaves, huntroubled⟩ := step_shutdown h.untroubled hstep
      exact ⟨hall, hbus, hslaves.trans h.slaves, huntroubled⟩
    · have hlike : Like s.transport s'.transport := by
        cases request with
        | shutdown => exact absurd rfl hshutdown
        | _ => exact hkept
      refine ⟨hall, hbus, hlike.slaves.trans h.slaves, ?_⟩
      rw [hlike.slaves, hlike.isOpen]
      by_cases hexchange : ∃ rttUs elapsed, request = .exchange rttUs elapsed
      · obtain ⟨rttUs, elapsed, rfl⟩ := hexchange
        obtain ⟨r, hr, hret⟩ := bind_eq_ok.1 hdrive
        have hmaster : s'.master = r.2 := (Except.ok.inj hret).symm
        rw [hmaster]
        refine h.untroubled.exchange (fun hstate => ?_) hr
        obtain ⟨hopen, hcount, -⟩ :=
          exchange_answer h.untroubled.closed hdrive htransport hserved hstate
        exact ⟨hopen, hcount⟩
      · exact untroubled_apply h.untroubled hdistinct hdrive
          (fun rttUs elapsed heq => hexchange ⟨rttUs, elapsed, heq⟩) hshutdown

variable {config : EthercatConfig} {slaves : List SlaveConfig} {ops : List BusOperation}

theorem run_concat (b : Build) (sine : BitVec 64 → BitVec 16) (config : EthercatConfig)
    (slaves : List SlaveConfig) (ops : List BusOperation) (op : BusOperation) :
    run b sine config slaves (ops ++ [op]) =
      (run b sine config slaves ops >>= fun s => s.step b sine op) :=
  foldlM_concat _ _ _ _

theorem new_transport (config : EthercatConfig) (slaves : List SlaveConfig) :
    (new config slaves).transport = { SimulatedTransport.new config with slaves := slaves } := by
  have hadd : ∀ (added : List SlaveConfig) (t : SimulatedTransport),
      added.foldl SimulatedTransport.addSlave t = { t with slaves := t.slaves ++ added } := by
    intro added
    induction added with
    | nil =>
      intro t
      rw [List.append_nil]
      rfl
    | cons slave rest ih =>
      intro t
      rw [List.foldl_cons, ih, SimulatedTransport.addSlave, List.append_assoc]
      rfl
  exact hadd slaves _

theorem sound_run (hdistinct : (positions slaves).Nodup)
    (h : run b sine config slaves ops = .ok s) :
    Sound b sine (new config slaves).transport s ∧
      (s.transport.isOpen = true ↔ .ask .shutdown ∉ ops) := by
  have hslaves : (new config slaves).transport.slaves = slaves := by rw [new_transport]
  induction ops using List.reverseRecOn generalizing s with
  | nil =>
    cases h
    refine ⟨⟨.nil _, ?_, rfl, ?_⟩, ?_⟩
    · have hrun : EthercatMaster.run b config [] = .ok (new config slaves).master := rfl
      exact EthercatMaster.onBus_run hrun
    · refine ⟨rfl, rfl, ?_, fun _ hoffline => absurd rfl hoffline, fun _ => .inl rfl⟩
      intro hfault
      cases hfault
    · rw [new_transport]
      simp [SimulatedTransport.new]
  | append_singleton ops op ih =>
    rw [run_concat] at h
    obtain ⟨s₁, hfront, hstep⟩ := bind_eq_ok.1 h
    obtain ⟨hsound, hopen⟩ := ih hfront
    refine ⟨Sound.step hsound (by rwa [hslaves]) hstep, ?_⟩
    by_cases hshutdown : op = .ask .shutdown
    · subst hshutdown
      obtain ⟨hclosed, -, -⟩ := step_shutdown hsound.untroubled hstep
      simp [hclosed]
    · have hkept := (answered_step hstep).2
      -- every other operation leaves the transport open or closed, as it was
      have hsame : s.transport.isOpen = s₁.transport.isOpen := by
        cases op with
        | setOutputs outputs =>
          have hequal : s.transport = s₁.transport := hkept
          rw [hequal]
        | ask request =>
          cases request with
          | shutdown => exact absurd rfl hshutdown
          | _ => exact Like.isOpen hkept
      rw [hsame, hopen, List.mem_append, List.mem_singleton]
      constructor
      · rintro hfree (hfront' | hlast)
        · exact hfree hfront'
        · exact hshutdown hlast.symm
      · exact fun hfree hmem => hfree (.inl hmem)

/-- In every run on the simulated bus that does not panic, the calls of the master have been
answered by the transport in their order; the master has never tripped, nor counted an error of the
working counter; and where its state stands for one of the slaves, that is the state they are in. -/
theorem simulated_bus (hdistinct : (positions slaves).Nodup)
    (h : run b sine config slaves ops = .ok s) :
    Served b sine (new config slaves).transport s.master.transport s.transport ∧
      s.master.state ≠ .fault ∧ s.master.consecutiveWkcErrors = 0 ∧ s.master.stats.wkcErrors = 0 ∧
      ∀ command, s.master.state.command = some command → s.transport.currentState = command := by
  obtain ⟨hsound, -⟩ := sound_run hdistinct h
  refine ⟨hsound.served, hsound.untroubled.noFault, hsound.untroubled.errors,
    hsound.untroubled.wkcErrors, ?_⟩
  intro command hcommand
  obtain ⟨mode, hafter, hknows⟩ := hsound.onBus
  have hstart : (new config slaves).transport.currentState = busProtocol.start.level := by
    rw [new_transport]
    rfl
  rw [hsound.served.level hstart hafter]
  exact hknows.level command hcommand

theorem oneMillisecond_lt : 1000000 < 2 ^ 64 * 10 ^ 9 := by decide

theorem noTime_lt : 0 < 2 ^ 64 * 10 ^ 9 := by decide

/-- A millisecond, with distributed clocks. -/
def wordConfig : EthercatConfig := ⟨true, ⟨1000000, oneMillisecond_lt⟩, 3⟩

/-- A slave with a clock and a digital word in either direction. -/
def wordSlave : SlaveConfig :=
  { SlaveConfig.new 0 ⟨2, 0x04442c52, 1, 0⟩ with
    dcSupported := true
    txPdos := [⟨32⟩]
    rxPdos := [⟨32⟩] }

/-- A bus that is brought up, used and shut down. -/
def wordRun : List BusOperation :=
  [.ask .init, .setOutputs ⟨0xa5, Vector.replicate 16 0⟩, .ask (.exchange 100 ⟨0, noTime_lt⟩),
    .ask .shutdown]

theorem simulated_bus_word : ∃ s, run .debug (fun _ => 0) wordConfig [wordSlave] wordRun = .ok s ∧
    Served .debug (fun _ => 0) (new wordConfig [wordSlave]).transport s.master.transport
      s.transport ∧
    s.master.state ≠ .fault ∧ s.master.consecutiveWkcErrors = 0 ∧ s.master.stats.wkcErrors = 0 ∧
    ∀ command, s.master.state.command = some command → s.transport.currentState = command := by
  have hok : (run .debug (fun _ => 0) wordConfig [wordSlave] wordRun).isOk = true := rfl
  cases h : run .debug (fun _ => 0) wordConfig [wordSlave] wordRun with
  | error e =>
    rw [h] at hok
    cases hok
  | ok s => exact ⟨s, rfl, simulated_bus (by decide) h⟩

/-! ## Bringing the bus up -/

/-- A step that succeeds and ends in a state. -/
def Taken (step : PlcResult Unit × EthercatMaster) (state : MasterState) : Prop :=
  step.1 = .ok () ∧ step.2.state = state

variable {m : EthercatMaster} {source target : MasterState}

theorem Taken.andThen {step : PlcResult Unit × EthercatMaster}
    {f : EthercatMaster → PlcResult Unit × EthercatMaster} (h : Taken step source)
    (hf : ∀ m' : EthercatMaster, m'.state = source → Taken (f m') target) :
    Taken (EthercatMaster.andThen step f) target := by
  rw [andThen_of_ok h.1]
  exact hf _ h.2

theorem taken_advance (hstate : m.state = source) (action : String) (command : SlaveState)
    (target : MasterState) :
    Taken (EthercatMaster.advance source action command target m (.ok ())) target := by
  have hne : ¬ m.state ≠ source := not_not.2 hstate
  unfold EthercatMaster.advance
  rw [if_neg hne]
  exact ⟨rfl, rfl⟩

theorem taken_configureDcSlaves (hstate : m.state = source) (clocks : List DcSlaveConfig) :
    Taken (EthercatMaster.configureDcSlaves (fun _ => .ok ()) m clocks) source := by
  induction clocks generalizing m with
  | nil => exact ⟨rfl, hstate⟩
  | cons clock rest ih =>
    rw [EthercatMaster.configureDcSlaves]
    split
    · exact ih hstate
    · exact ih hstate

theorem taken_configureDc (hstate : m.state = source) (dcTime : BitVec 64) :
    Taken (m.configureDc (.ok dcTime) fun _ => .ok ()) source := by
  rw [EthercatMaster.configureDc]
  split
  · exact ⟨rfl, hstate⟩
  · apply taken_configureDcSlaves
    exact hstate

theorem scanSlaves_found {found : List SlaveConfig} {r : PlcResult Nat × EthercatMaster}
    (h : m.scanSlaves b (.ok found) = .ok r) :
    r.1 = .ok found.length ∧ r.2.state = .init := by
  obtain ⟨expectedWkc, -, h⟩ := bind_eq_ok.1 h
  cases h
  exact ⟨rfl, (Untroubled.foldl_addScanned _ found).2.2⟩

/-- An initialisation of which every step is answered well ends in OP. -/
theorem taken_init {found : List SlaveConfig} {dcTime : BitVec 64}
    {r : PlcResult Unit × EthercatMaster}
    (h : m.init b ⟨.ok found, .ok (), .ok dcTime, fun _ => .ok (), .ok (), .ok ()⟩ = .ok r) :
    Taken r .op := by
  obtain ⟨⟨result, scanned⟩, hfound, h⟩ := bind_eq_ok.1 h
  obtain ⟨rfl, hstate⟩ := scanSlaves_found hfound
  cases h
  -- each step is taken in the state that the one before it has led to
  apply Taken.andThen (taken_advance hstate "configure" .preOp .preOp)
  intro m₁ h₁
  apply Taken.andThen (taken_configureDc h₁ dcTime)
  intro m₂ h₂
  apply Taken.andThen (taken_advance h₂ "enter SAFE_OP" .safeOp .safeOp)
  intro m₃ h₃
  exact taken_advance h₃ "enter OP" .op .op

/-- An initialisation after a run brings the master to OP exactly if the run had no shutdown: the
simulated transport is never opened again. -/
theorem init_brings_up (hdistinct : (positions slaves).Nodup)
    (h : run b sine config slaves ops = .ok s) (hinit : s.step b sine (.ask .init) = .ok s') :
    s'.master.state = .op ↔ .ask .shutdown ∉ ops := by
  obtain ⟨-, hopen⟩ := sound_run hdistinct h
  rw [← hopen]
  have hdrive := step_drive hinit
  obtain ⟨r, hr, hret⟩ := bind_eq_ok.1 hdrive
  have hmaster : s'.master = r.2 := (Except.ok.inj hret).symm
  rw [hmaster]
  cases hstate : s.transport.isOpen with
  | true =>
    have hscan : s.transport.scanSlaves.1 = .ok s.transport.slaves := by
      rw [SimulatedTransport.scanSlaves, hstate]
      rfl
    rw [hscan, setState_open hstate, setState_open hstate, setState_open hstate] at hr
    exact iff_of_true (taken_init hr).2 rfl
  | false =>
    have hscan : s.transport.scanSlaves.1 = .error SimulatedTransport.notOpen := by
      rw [SimulatedTransport.scanSlaves, hstate]
      rfl
    rw [hscan] at hr
    cases hr
    exact iff_of_false (fun hop => by cases hop) Bool.false_ne_true

/-- After its shutdown the bus stays down. -/
theorem init_brings_up_word : ∃ s s',
    run .debug (fun _ => 0) wordConfig [wordSlave] wordRun = .ok s ∧
      s.step .debug (fun _ => 0) (.ask .init) = .ok s' ∧
      (s'.master.state = .op ↔ .ask .shutdown ∉ wordRun) := by
  have hok : (run .debug (fun _ => 0) wordConfig [wordSlave] wordRun >>= fun s =>
      s.step .debug (fun _ => 0) (.ask .init)).isOk = true := rfl
  cases h : run .debug (fun _ => 0) wordConfig [wordSlave] wordRun with
  | error e =>
    rw [h] at hok
    cases hok
  | ok s =>
    rw [h] at hok
    change (s.step .debug (fun _ => 0) (.ask .init)).isOk = true at hok
    cases hinit : s.step .debug (fun _ => 0) (.ask .init) with
    | error e =>
      rw [hinit] at hok
      cases hok
    | ok s' => exact ⟨s, s', rfl, hinit, init_brings_up (by decide) h hinit⟩

/-! ## The echo -/

/-- The low byte of a word that is decoded from bytes is the first of them. -/
theorem low_byte {bytes : List (BitVec 8)} (h : 4 ≤ bytes.length) :
    ((((Memory.ofBytes bytes).read 0 4).map (BitVec.ofNat 32)).getD 0).setWidth 8 =
      (Memory.ofBytes bytes).byte 0 := by
  rw [Memory.read_eq h, Option.map_some, Option.getD_some]
  apply BitVec.eq_of_toNat_eq
  have hbyte := ((Memory.ofBytes bytes).byte 0).isLt
  rw [BitVec.toNat_setWidth, BitVec.toNat_ofNat, Memory.value]
  omega

theorem first_simulateInputs (wave : BitVec 16) {outputs inputs : List (BitVec 8)}
    (hinputs : inputs ≠ []) (houtputs : outputs ≠ []) :
    (simulateInputs wave outputs inputs).getD 0 0 = outputs.getD 0 0 := by
  cases inputs with
  | nil => exact absurd rfl hinputs
  | cons first rest =>
    cases outputs with
    | nil => exact absurd rfl houtputs
    | cons output outputs => rcases rest with - | ⟨second, - | ⟨third, rest⟩⟩ <;> rfl

/-- What an exchange that the master makes leaves in its input image. -/
theorem exchange_inputs {rttUs : BitVec 32} {elapsed : Duration}
    (hsound : Sound b sine start s) (hstate : s.master.exchanging = true)
    (hstep : s.step b sine (.ask (.exchange rttUs elapsed)) = .ok s') :
    ∃ wave, s'.master.processImage.inputs =
      (List.range s.master.processImage.inputs.length).map fun i =>
        (simulateInputs wave s.master.processImage.outputs
          s.master.processImage.inputs).getD i 0 := by
  have hdrive := step_drive hstep
  obtain ⟨⟨calls, htransport, hserved⟩, -⟩ := answered_step hstep
  obtain ⟨hopen, hcount, wave, hreceived⟩ :=
    exchange_answer hsound.untroubled.closed hdrive htransport hserved hstate
  obtain ⟨r, hr, hret⟩ := bind_eq_ok.1 hdrive
  have hmaster : s'.master = r.2 := (Except.ok.inj hret).symm
  have huntroubled := hsound.untroubled
  rw [hopen] at huntroubled
  rw [huntroubled.exchange_eq hstate hcount] at hr
  obtain ⟨-, hclock⟩ := EthercatMaster.updateDc_ok hr
  refine ⟨wave, ?_⟩
  rw [hmaster, hclock.image, ← hreceived]
  rfl

/-- In every run, where both images hold a digital word, the low byte that is read after an exchange
is the low byte of the outputs that were set before it. -/
theorem exchange_echoes {outputs : FieldbusOutputs} {rttUs : BitVec 32} {elapsed : Duration}
    (hdistinct : (positions slaves).Nodup) (h : run b sine config slaves ops = .ok s)
    (hstate : s.master.exchanging = true) (hinputs : 4 ≤ s.master.processImage.inputs.length)
    (houtputs : 4 ≤ s.master.processImage.outputs.length)
    (hnext : run b sine config slaves
      (ops ++ [.setOutputs outputs, .ask (.exchange rttUs elapsed)]) = .ok s') :
    ∃ inputs, s'.master.processImage.getInputs = .ok inputs ∧
      inputs.digital.setWidth 8 = outputs.digital.setWidth 8 := by
  obtain ⟨hsound, -⟩ := sound_run hdistinct h
  rw [run, List.foldlM_append] at hnext
  obtain ⟨s₀, hops, hnext⟩ := bind_eq_ok.1 hnext
  obtain rfl : s = s₀ := Except.ok.inj (h.symm.trans hops)
  rw [List.foldlM_cons] at hnext
  obtain ⟨s₁, hset, hnext⟩ := bind_eq_ok.1 hnext
  rw [List.foldlM_cons] at hnext
  obtain ⟨s₂, hexchange, hnext⟩ := bind_eq_ok.1 hnext
  cases hnext
  have hslaves : (new config slaves).transport.slaves = slaves := by rw [new_transport]
  have hsound₁ : Sound b sine (new config slaves).transport s₁ :=
    Sound.step hsound (by rwa [hslaves]) hset
  -- the outputs are set, and the exchange takes them to the inputs
  obtain ⟨image, hok, hret⟩ := bind_eq_ok.1 (step_drive hset)
  obtain ⟨image', hok', hwrites⟩ := ProcessImage.setOutputs_writes s.master.processImage outputs
  obtain rfl : image' = image := Except.ok.inj (hok'.symm.trans hok)
  have hmaster : s₁.master = { s.master with processImage := image' } :=
    (Except.ok.inj hret).symm
  have hlength : image'.outputs.length = s.master.processImage.outputs.length := hwrites.length_eq
  have hsame : image'.inputs.length = s.master.processImage.inputs.length := by rw [hwrites.frame]
  have himage : s₁.master.processImage = image' := by rw [hmaster]
  obtain ⟨wave, hread⟩ := exchange_inputs hsound₁ (by rw [hmaster]; exact hstate) hexchange
  rw [himage] at hread
  refine ⟨_, ProcessImage.getInputs_eq _, ?_⟩
  have hdigital := hwrites.decoded (x := outputs.digital) rfl List.mem_cons_self
  rw [if_pos houtputs] at hdigital
  have hlow : outputs.digital.setWidth 8 = (Memory.ofBytes image'.outputs).byte 0 := by
    rw [← hdigital]
    exact low_byte (by omega)
  have hfirst : (simulateInputs wave image'.outputs image'.inputs).getD 0 0 =
      image'.outputs.getD 0 0 := by
    apply first_simulateInputs
    · exact List.ne_nil_of_length_pos (by omega)
    · exact List.ne_nil_of_length_pos (by omega)
  have hechoed : (Memory.ofBytes s'.master.processImage.inputs).byte 0 =
      (Memory.ofBytes image'.outputs).byte 0 := by
    rw [Memory.byte_ofBytes, Memory.byte_ofBytes, ← hfirst, hread, List.getD_eq_getElem?_getD,
      List.getElem?_map, List.getElem?_range (by omega)]
    rfl
  rw [hlow, ← hechoed]
  apply low_byte
  rw [hread, List.length_map, List.length_range]
  omega

/-- A word is set and exchanged after the bus has been brought up. -/
theorem exchange_echoes_word : ∃ s s',
    run .debug (fun _ => 0) wordConfig [wordSlave] [.ask .init] = .ok s ∧
      run .debug (fun _ => 0) wordConfig [wordSlave] ([.ask .init] ++
        [.setOutputs ⟨0xa5, Vector.replicate 16 0⟩, .ask (.exchange 100 ⟨0, by decide⟩)]) = .ok s' ∧
      ∃ inputs, s'.master.processImage.getInputs = .ok inputs ∧
        inputs.digital.setWidth 8 = (0xa5 : BitVec 32).setWidth 8 := by
  have hup : (run .debug (fun _ => 0) wordConfig [wordSlave] [.ask .init]).map (fun s =>
      (s.master.exchanging, s.master.processImage.inputs.length,
        s.master.processImage.outputs.length)) = .ok (true, 4, 4) := rfl
  have hok : (run .debug (fun _ => 0) wordConfig [wordSlave] ([.ask .init] ++
      [.setOutputs ⟨0xa5, Vector.replicate 16 0⟩,
        .ask (.exchange 100 ⟨0, by decide⟩)])).isOk = true := rfl
  cases h : run .debug (fun _ => 0) wordConfig [wordSlave] [.ask .init] with
  | error e =>
    rw [h] at hup
    cases hup
  | ok s =>
    rw [h] at hup
    obtain ⟨hstate, hsizes⟩ := Prod.mk.inj (Except.ok.inj hup)
    obtain ⟨hinputs, houtputs⟩ := Prod.mk.inj hsizes
    cases hnext : run .debug (fun _ => 0) wordConfig [wordSlave] ([.ask .init] ++
        [.setOutputs ⟨0xa5, Vector.replicate 16 0⟩, .ask (.exchange 100 ⟨0, by decide⟩)]) with
    | error e =>
      rw [hnext] at hok
      cases hok
    | ok s' =>
      exact ⟨s, s', rfl, rfl, exchange_echoes (by decide) h hstate (Nat.le_of_eq hinputs.symm)
        (Nat.le_of_eq houtputs.symm) hnext⟩

end SimulatedBus

end VirtualPlc.Fieldbus
