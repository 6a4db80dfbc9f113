import Mathlib.Logic.Relation
import VirtualPlc.Fieldbus.Ethercat

/-!
# Runs of the EtherCAT master

Operations on a master. An exchange ends in one of a few ways (`exchange_cases`); every other
operation is made of parts, most of which are calls to the transport (`reaches_apply`).
-/

set_option autoImplicit false

namespace VirtualPlc.Fieldbus

open VirtualPlc.Runtime VirtualPlc.Word Relation

/-- Operations on a master, with the transport's answers. -/
inductive MasterOperation where
  | init (answers : InitAnswers)
  | scanSlaves (answer : PlcResult (List SlaveConfig))
  | configureSlaves (answer : PlcResult Unit)
  | configureDc (dcTime : PlcResult (BitVec 64)) (answer : DcSlaveConfig → PlcResult Unit)
  | enterSafeOp (answer : PlcResult Unit)
  | enterOp (answer : PlcResult Unit)
  | exchange (answers : ExchangeAnswers)
  | sdoRead (request : SdoRequest) (answer : PlcResult (List (BitVec 8)))
  | sdoWrite (request : SdoRequest) (answer : PlcResult Unit)
  | shutdown (answers : ShutdownAnswers)

/-- The master after an operation, whatever its result. -/
def MasterOperation.apply (b : Build) (m : EthercatMaster) :
    MasterOperation → Except Failure EthercatMaster
  | .init answers => do
    let r ← m.init b answers
    return r.2
  | .scanSlaves answer => do
    let r ← m.scanSlaves b answer
    return r.2
  | .configureSlaves answer => .ok (m.configureSlaves answer).2
  | .configureDc dcTime answer => .ok (m.configureDc dcTime answer).2
  | .enterSafeOp answer => .ok (m.enterSafeOp answer).2
  | .enterOp answer => .ok (m.enterOp answer).2
  | .exchange answers => do
    let r ← m.exchange b answers
    return r.2
  | .sdoRead request answer => .ok (m.sdoRead request answer).2
  | .sdoWrite request answer => .ok (m.sdoWrite request answer).2
  | .shutdown answers => .ok (m.shutdown answers).2

namespace EthercatMaster

/-- A new master after some operations. -/
def run (b : Build) (config : EthercatConfig) (ops : List MasterOperation) :
    Except Failure EthercatMaster :=
  ops.foldlM (MasterOperation.apply b) (withTransport config)

theorem run_append (b : Build) (config : EthercatConfig) (ops more : List MasterOperation) :
    run b config (ops ++ more) =
      (run b config ops >>= fun m => more.foldlM (MasterOperation.apply b) m) :=
  List.foldlM_append

theorem run_concat (b : Build) (config : EthercatConfig) (ops : List MasterOperation)
    (op : MasterOperation) : run b config (ops ++ [op]) = (run b config ops >>= op.apply b) :=
  foldlM_concat _ _ _ _

/-! ## An exchange -/

/-- What the update of the clocks leaves alone. -/
structure ClockUpdated (m m' : EthercatMaster) : Prop where
  state : m'.state = m.state
  config : m'.config = m.config
  errors : m'.consecutiveWkcErrors = m.consecutiveWkcErrors
  image : m'.processImage = m.processImage
  transport : m'.transport = m.transport ∨
    ∃ result, m'.transport = m.transport ++ [.readDcTime result]

theorem updateDc_ok {b : Build} {m : EthercatMaster} {answers : ExchangeAnswers}
    {r : PlcResult Unit × EthercatMaster} (h : m.updateDc b answers = .ok r) :
    r.1 = .ok () ∧ ClockUpdated m r.2 := by
  rw [updateDc] at h
  split at h
  · dsimp only at h
    split at h
    · cases h
      exact ⟨rfl, rfl, rfl, rfl, rfl, .inr ⟨_, rfl⟩⟩
    · obtain ⟨⟨deviation, dc⟩, -, h⟩ := bind_eq_ok.1 h
      cases h
      exact ⟨rfl, rfl, rfl, rfl, rfl, .inr ⟨_, rfl⟩⟩
  · cases h
    exact ⟨rfl, rfl, rfl, rfl, rfl, .inl rfl⟩

/-- The ways an exchange can end, short of a panic. -/
inductive ExchangeOutcome (b : Build) (m : EthercatMaster) (answers : ExchangeAnswers)
    (r : PlcResult Unit × EthercatMaster) : Prop where
  | refused (hstate : m.exchanging = false)
      (heq : r = (.error (.fieldbusError s!"Cannot exchange in state {m.state.display}"), m))
  | failed (hstate : m.exchanging = true) (e : PlcError) (hanswer : answers.exchange = .error e)
      (heq : r = (.error e, m.exchanged answers))
  | tripped (hstate : m.exchanging = true) (wkc : BitVec 16) (hanswer : answers.exchange = .ok wkc)
      (hwkc : wkc ≠ m.processImage.expectedWkc) (errors : BitVec 32)
      (herrors : u32Add b m.consecutiveWkcErrors 1 = .ok errors)
      (hreached : m.thresholdReached errors = true)
      (heq : r = (.error (.wkcThresholdExceeded errors m.config.wkcErrorThreshold),
        { ((m.exchanged answers).countCycle wkc).mismatched errors with state := .fault }))
  | mismatched (hstate : m.exchanging = true) (wkc : BitVec 16)
      (hanswer : answers.exchange = .ok wkc) (hwkc : wkc ≠ m.processImage.expectedWkc)
      (errors : BitVec 32) (herrors : u32Add b m.consecutiveWkcErrors 1 = .ok errors)
      (hreached : m.thresholdReached errors = false) (hok : r.1 = .ok ())
      (hclock : ClockUpdated (((m.exchanged answers).countCycle wkc).mismatched errors) r.2)
  | matched (hstate : m.exchanging = true) (wkc : BitVec 16) (hanswer : answers.exchange = .ok wkc)
      (hwkc : wkc = m.processImage.expectedWkc) (hok : r.1 = .ok ())
      (hclock : ClockUpdated (((m.exchanged answers).countCycle wkc).matched answers.rttUs) r.2)

/-- Every exchange that does not panic ends in one of these ways. -/
theorem exchange_cases {b : Build} {m : EthercatMaster} {answers : ExchangeAnswers}
    {r : PlcResult Unit × EthercatMaster} (h : m.exchange b answers = .ok r) :
    ExchangeOutcome b m answers r := by
  cases hstate : m.exchanging with
  | false =>
    rw [exchange, hstate] at h
    cases h
    exact .refused hstate rfl
  | true =>
    rw [exchange, hstate] at h
    cases hanswer : answers.exchange with
    | error e =>
      simp only [hanswer, Bool.not_true, Bool.false_eq_true, if_false] at h
      cases h
      exact .failed hstate e hanswer rfl
    | ok wkc =>
      simp only [hanswer, Bool.not_true, Bool.false_eq_true, if_false] at h
      -- counting the cycle does not touch the expected working counter
      have hexpected : ((m.exchanged answers).countCycle wkc).processImage.expectedWkc =
          m.processImage.expectedWkc := rfl
      rw [hexpected] at h
      by_cases hwkc : wkc = m.processImage.expectedWkc
      · rw [if_neg (fun hne => hne hwkc)] at h
        obtain ⟨hok, hclock⟩ := updateDc_ok h
        exact .matched hstate wkc hanswer hwkc hok hclock
      · rw [if_pos hwkc] at h
        obtain ⟨errors, herrors, h⟩ := bind_eq_ok.1 h
        cases hreached : m.thresholdReached errors with
        | true =>
          have hreached' : (((m.exchanged answers).countCycle wkc).mismatched
              errors).thresholdReached errors = true := hreached
          rw [if_pos hreached'] at h
          cases h
          exact .tripped hstate wkc hanswer hwkc errors herrors hreached rfl
        | false =>
          have hreached' : ¬ (((m.exchanged answers).countCycle wkc).mismatched
              errors).thresholdReached errors = true := ne_true_of_eq_false hreached
          rw [if_neg hreached'] at h
          obtain ⟨hok, hclock⟩ := updateDc_ok h
          exact .mismatched hstate wkc hanswer hwkc errors herrors hreached hok hclock

end EthercatMaster

/-! ## The parts of the other operations -/

/-- A state command that the transport has accepted. -/
def TransportCall.accepted : TransportCall → Option SlaveState
  | .setState state (.ok ()) => some state
  | _ => none

/-- The command that brings the slaves to the state of the master. -/
def MasterState.command : MasterState → Option SlaveState
  | .preOp => some .preOp
  | .safeOp => some .safeOp
  | .op => some .op
  | .offline | .init | .fault => none

/-- A part of an operation: a call that is no accepted command, an accepted command with the state
that it stands for, a state without a command, or new data. -/
inductive Part (m : EthercatMaster) : EthercatMaster → Prop where
  | called (call : TransportCall) (haccepted : call.accepted = none) : Part m (m.call call)
  | commanded (command : SlaveState) (target : MasterState) (network : NetworkConfig)
      (hboot : command ≠ .bootstrap)
      (htarget : target.command = none ∨ target.command = some command) :
      Part m { m.call (.setState command (.ok ())) with network := network, state := target }
  | left (target : MasterState) (network : NetworkConfig) (dc : DcController)
      (htarget : target.command = none) :
      Part m { m with state := target, network := network, dc := dc }
  | loaded (network : NetworkConfig) (dc : DcController) (image : ProcessImage) :
      Part m { m with network := network, dc := dc, processImage := image }

/-- Parts of operations, one after the other. -/
abbrev Reaches : EthercatMaster → EthercatMaster → Prop := ReflTransGen Part

namespace EthercatMaster

variable {b : Build} {m : EthercatMaster}

theorem reaches_andThen {step : PlcResult Unit × EthercatMaster}
    {f : EthercatMaster → PlcResult Unit × EthercatMaster} (hstep : Reaches m step.2)
    (hf : ∀ m', Reaches m' (f m').2) : Reaches m (andThen step f).2 := by
  obtain ⟨result, m'⟩ := step
  cases result with
  | error e => exact hstep
  | ok u => exact hstep.trans (hf m')

theorem reaches_addScanned (m : EthercatMaster) (slaves : List SlaveConfig) :
    Reaches m (slaves.foldl addScanned m) := by
  induction slaves generalizing m with
  | nil => exact .refl
  | cons slave rest ih =>
    exact (ReflTransGen.single (.loaded _ _ _)).trans (ih (m.addScanned slave))

theorem reaches_scanSlaves {answer : PlcResult (List SlaveConfig)}
    {r : PlcResult Nat × EthercatMaster} (h : m.scanSlaves b answer = .ok r) : Reaches m r.2 := by
  have hbegin : Reaches m (m.beginScan.call (.scanSlaves answer)) :=
    (ReflTransGen.single (.left .init _ _ rfl)).tail (.called _ rfl)
  cases answer with
  | error e =>
    cases h
    exact hbegin
  | ok slaves =>
    rw [scanSlaves] at h
    obtain ⟨expectedWkc, -, h⟩ := bind_eq_ok.1 h
    cases h
    exact (hbegin.trans (reaches_addScanned _ slaves)).tail (.loaded _ _ _)

theorem reaches_advance {source target : MasterState} {action : String} {command : SlaveState}
    (hboot : command ≠ .bootstrap) (htarget : target.command = some command)
    (m : EthercatMaster) (answer : PlcResult Unit) :
    Reaches m (advance source action command target m answer).2 := by
  unfold advance
  split
  · exact .refl
  · cases answer with
    | error e => exact .single (.called _ rfl)
    | ok u => exact .single (.commanded command target _ hboot (.inr htarget))

theorem reaches_configureDcSlaves (answer : DcSlaveConfig → PlcResult Unit) (m : EthercatMaster)
    (slaves : List DcSlaveConfig) : Reaches m (configureDcSlaves answer m slaves).2 := by
  induction slaves generalizing m with
  | nil => exact .refl
  | cons slave rest ih =>
    rw [configureDcSlaves]
    split
    · have hcall : Part m (m.call (.configureSlaveDc slave (answer slave))) := .called _ rfl
      split
      · exact .single hcall
      · exact (ReflTransGen.single hcall).trans (ih _)
    · exact ih m

theorem reaches_configureDc (m : EthercatMaster) (dcTime : PlcResult (BitVec 64))
    (answer : DcSlaveConfig → PlcResult Unit) : Reaches m (m.configureDc dcTime answer).2 := by
  rw [configureDc]
  split
  · exact .refl
  · have hcall : Part m (m.call (.readDcTime dcTime)) := .called _ rfl
    cases dcTime with
    | error e => exact .single hcall
    | ok initialTime =>
      refine ((ReflTransGen.single hcall).tail ?_).trans (reaches_configureDcSlaves answer _ _)
      exact .loaded _ _ _

theorem reaches_stepDown {source target : MasterState} {command : SlaveState}
    (hboot : command ≠ .bootstrap)
    (htarget : target.command = none ∨ target.command = some command) (m : EthercatMaster)
    (answer : PlcResult Unit) : Reaches m (stepDown source command target m answer).2 := by
  unfold stepDown
  split
  · cases answer with
    | error e => exact .single (.called _ rfl)
    | ok u => exact .single (.commanded command target _ hboot htarget)
  · exact .refl

theorem reaches_closeTransport (m : EthercatMaster) (answer : PlcResult Unit) :
    Reaches m (m.closeTransport answer).2 := by
  have hcall : Part m (m.call (.close answer)) := .called _ rfl
  cases answer with
  | error e => exact .single hcall
  | ok u => exact (ReflTransGen.single hcall).tail (.left .offline _ _ rfl)

theorem reaches_init {answers : InitAnswers} {r : PlcResult Unit × EthercatMaster}
    (h : m.init b answers = .ok r) : Reaches m r.2 := by
  obtain ⟨⟨result, m'⟩, hscan, h⟩ := bind_eq_ok.1 h
  have hfirst : Reaches m m' := reaches_scanSlaves hscan
  cases result with
  | error e =>
    cases h
    exact hfirst
  | ok count =>
    cases h
    refine hfirst.trans (reaches_andThen ?_ fun m₁ => reaches_andThen ?_ fun m₂ =>
      reaches_andThen ?_ fun m₃ => ?_)
    · exact reaches_advance (by simp) rfl _ _
    · exact reaches_configureDc _ _ _
    · exact reaches_advance (by simp) rfl _ _
    · exact reaches_advance (by simp) rfl _ _

theorem reaches_shutdown (m : EthercatMaster) (answers : ShutdownAnswers) :
    Reaches m (m.shutdown answers).2 := by
  refine reaches_andThen ?_ fun m₁ => reaches_andThen ?_ fun m₂ => reaches_andThen ?_ fun m₃ => ?_
  · exact reaches_stepDown (by simp) (.inr rfl) _ _
  · exact reaches_stepDown (by simp) (.inr rfl) _ _
  · exact reaches_stepDown (by simp) (.inl rfl) _ _
  · exact reaches_closeTransport _ _

/-- Every operation but the exchange is made of such parts. -/
theorem reaches_apply {op : MasterOperation} {m' : EthercatMaster} (h : op.apply b m = .ok m')
    (hexchange : ∀ answers, op ≠ .exchange answers) : Reaches m m' := by
  cases op with
  | init answers =>
    obtain ⟨r, hr, hret⟩ := bind_eq_ok.1 h
    cases hret
    exact reaches_init hr
  | scanSlaves answer =>
    obtain ⟨r, hr, hret⟩ := bind_eq_ok.1 h
    cases hret
    exact reaches_scanSlaves hr
  | exchange answers => exact absurd rfl (hexchange answers)
  | configureSlaves answer | enterSafeOp answer | enterOp answer =>
    cases h
    exact reaches_advance (by simp) rfl _ _
  | configureDc dcTime answer =>
    cases h
    exact reaches_configureDc _ _ _
  | sdoRead request answer =>
    cases h
    rw [sdoRead]
    split
    · exact .refl
    · exact .single (.called _ rfl)
  | sdoWrite request answer =>
    cases h
    rw [sdoWrite]
    split
    · exact .refl
    · split
      · exact .refl
      · exact .single (.called _ rfl)
  | shutdown answers =>
    cases h
    exact reaches_shutdown _ _

/-! ## A small bus -/

/-- A bus of one slave with two bytes of inputs, brought to OP. -/
def twoByteBus : InitAnswers where
  scan := .ok [{ SlaveConfig.new 0 ⟨2, 0x03f03052, 0x120000, 0⟩ with txPdos := [⟨16⟩] }]
  preOp := .ok ()
  dcTime := .ok 0
  configureDc := fun _ => .ok ()
  safeOp := .ok ()
  op := .ok ()

/-- An exchange with a working counter. -/
def wkcAnswer (wkc : BitVec 16) : ExchangeAnswers :=
  ⟨.ok wkc, fun _ => 0, 100, .ok 0, ⟨0, by decide⟩⟩

/-- A millisecond, without distributed clocks; the third mismatch in a row is one too many. -/
def threeErrors : EthercatConfig := ⟨false, ⟨1000000, by decide⟩, 3⟩

end EthercatMaster

end VirtualPlc.Fieldbus
