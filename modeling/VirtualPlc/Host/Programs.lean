import VirtualPlc.Compiler.Calls
import VirtualPlc.Host.Executions
import VirtualPlc.Host.InputRegions
import VirtualPlc.Wasm.Hosted

/-!
# Scan cycles of compiled programs

Before each scan cycle the host writes the inputs and the system information into the memory of the
program, and during the cycle it answers the program from there, as long as the limit on its calls
is not reached. `meanScans` is what the cycles mean for the variables, without a memory and without
a host: every cycle runs the body of the program with answers from the inputs of the cycle. The
emitted module computes just that over any number of cycles that stay within the limit
(`scans_mean`).

A call over the limit answers zero and leaves `rate_limit_hit` set until the end of the cycle. That
flag is what `WithinCallLimit` watches.
-/

set_option autoImplicit false

namespace VirtualPlc.Host

open VirtualPlc.Runtime VirtualPlc.Word VirtualPlc.Wasm VirtualPlc.Control VirtualPlc.Compiler

/-- The store of a program with the memory `m`. -/
def programStore (data : HostState) (m : Memory) : Store where
  memories := [m]
  instances := [some 0]
  data := data
  fuel := none
  clock := ⟨0, 0⟩
  deadline := 0
  log := []

/-- What a host call of the program leaves: results, memory, host state. -/
def Store.served (r : List Value × Store) : List Value × Memory × HostState :=
  (r.1, (r.2.memoryAt (some 0)).getD (.zeroed 0), r.2.data)

/-- A host call of the program. -/
def serve (data : HostState) (call : HostCall) (m : Memory) : List Value × Memory × HostState :=
  Store.served ((programStore data m).hostCall (some 0) call)

/-- The host call that a call of an import is. -/
def hostCallOf (name : String) (args : List Value) : Option HostCall :=
  match args with
  | [] => if name = "get_cycle_time" then some .getCycleTime else none
  | [.i32 x] =>
    if name = "read_di" then some (.readDi x)
    else if name = "read_ai" then some (.readAi x)
    else none
  | [.i32 x, .i32 value] =>
    if name = "write_do" then some (.writeDo x value)
    else if name = "write_ao" then some (.writeAo x value)
    else none
  | _ => none

/-- The host functions behind the imports of an emitted module. -/
def plcImports : List (HostedFunction HostState) :=
  importHostFunctions.map fun function args m data =>
    match hostCallOf function.name args with
    | some call => .ok (serve data call m)
    | none => .error .trap

/-- What the host answers to calls in a cycle with these inputs. -/
def inputAnswers (cycleTimeNs : BitVec 64) (inputs : ProcessData) : Compiler.Answers :=
  fun name xs =>
    match xs with
    | [] => if name = "get_cycle_time" then some (cappedCycleTime cycleTimeNs) else none
    | [x] =>
      let i := (BitVec.ofInt 32 x).toNat
      if name = "read_di" then
        some (if (getElem inputs.digitalInputs 0 Nat.zero_lt_one).getLsbD i then 1 else 0)
      else if name = "read_ai" then
        some (if h : i < 16 then (inputs.analogInputs.get ⟨i, h⟩).signExtend 32 else 0)
      else none
    | _ => none

/-- The system information of a cycle. -/
def cycleInfo (data : HostState) : WasmSystemInfo :=
  ⟨data.cycleTimeNs, if data.firstCycle then flagFirstCycle else 0, data.cycleCount, 0⟩

/-- Continue after a call that returns. -/
def afterCall (r : HostedResult HostState)
    (f : HostState → Memory → Option (Except Fault Memory)) : Option (Except Fault Memory) :=
  match r with
  | none => none
  | some (.error e) => some (.error e)
  | some (.ok (_, mem, data)) => f data mem

/-- Scan cycles over the given host functions: each writes its inputs and calls the function `i` of
the module, and the host counts it when it succeeds. -/
def runScans (m : Wasm.Module) (float : FloatOps) (hosts : List (HostedFunction HostState))
    (n d i : Nat) : HostState → List ProcessData → Memory → Option (Except Fault Memory)
  | _, [], mem => some (.ok mem)
  | data, inputs :: rest, mem =>
    match programOf m float [] with
    | none => some (.error .malformed)
    | some p =>
      afterCall (p.callHosted hosts n d i [] (preStepImage inputs (cycleInfo data) mem) data)
        fun data' mem' => runScans m float hosts n d i data'.advanceCycle rest mem'

/-- No cycle calls the host more often than the limit allows: no call sets `rate_limit_hit`. -/
def WithinCallLimit (m : Wasm.Module) (float : FloatOps) (n d i : Nat) (data : HostState)
    (cycles : List ProcessData) (mem : Memory) : Prop :=
  runScans m float (plcImports.map (stopping HostState.rateLimitHit)) n d i data cycles mem ≠
    some (.error .observed)

/-- What scan cycles of a program mean for its variables. -/
def meanScans (types : Types) (cycleTimeNs : BitVec 64) (n : Nat) (body : List Statement) :
    List ProcessData → Compiler.Store → Signal RunError Compiler.Store
  | [], ρ => .next ρ
  | inputs :: rest, ρ =>
    (runAll types (inputAnswers cycleTimeNs inputs) n body ρ).finish.andThen
      (meanScans types cycleTimeNs n body rest)

/-- The memory after scan cycles holds what the signal says in the variables. -/
def ScansMean (symbols : SymbolTable) :
    Signal RunError Compiler.Store → Option (Except Fault Memory) → Prop
  | .next ρ, r => ∃ mem, r = some (.ok mem) ∧ mem.size = pageSize ∧ Represents symbols mem ρ mem
  | .stop e, r => r = some (.error e.fault)
  | .timeout, r => r = none
  | .ret _, _ => False
  | .exit _, _ => False
  | .again _, _ => False

/-! ## The host functions -/

section Functions

variable {m image mem : Memory} {data : HostState} {inputs : ProcessData} {info : WasmSystemInfo}

/-- What a host call of the program leaves that the limit lets through. -/
def answer (data : HostState) (call : HostCall) (m : Memory) : List Value × Memory × HostState :=
  Store.served ((programStore data m).allowedCall (some 0) call)

/-- The host functions of a cycle, without the limit and without a state. -/
def allowedImports (data : HostState) : List HostFunction :=
  importHostFunctions.map fun function args m =>
    (hostCallOf function.name args).map fun call =>
      ((answer data call m).1, (answer data call m).2.1)

/-- The host states show a program the same cycle. -/
structure SameCycle (data data' : HostState) : Prop where
  cycleTimeNs : data'.cycleTimeNs = data.cycleTimeNs
  cycleCount : data'.cycleCount = data.cycleCount
  firstCycle : data'.firstCycle = data.firstCycle

theorem SameCycle.pushLog {data' : HostState} (h : SameCycle data data') (message : String) :
    SameCycle data (data'.pushLog message) := ⟨h.cycleTimeNs, h.cycleCount, h.firstCycle⟩

/-- Over the limit a call does nothing but set the flag. -/
theorem serve_refused (call : HostCall) (m : Memory)
    (h : data.maxHostCallsPerCycle ≤ data.hostCallCount) :
    serve data call m = (call.zero, m, { data with rateLimitHit := true }) := by
  rw [serve, Store.hostCall_refused call h]
  rfl

theorem serve_let_through (call : HostCall) (m : Memory)
    (h : ¬ data.maxHostCallsPerCycle ≤ data.hostCallCount) :
    serve data call m = answer { data with hostCallCount := data.hostCallCount + 1 } call m := by
  rw [serve, Store.hostCall_let_through call h]
  rfl

theorem answer_readDi (data : HostState) (bit : BitVec 32) (m : Memory) :
    answer data (.readDi bit) m = ([.i32 (if readDiFromMemory m bit then 1 else 0)], m, data) := rfl

theorem answer_readAi (data : HostState) (channel : BitVec 32) (m : Memory) :
    answer data (.readAi channel) m =
      ([.i32 ((readAiFromMemory m channel).signExtend 32)], m, data) := rfl

/-- What a call answers depends on the memory and the cycle only. -/
theorem answer_sameCycle {data' : HostState} (h : SameCycle data data') (call : HostCall)
    (m : Memory) : (answer data' call m).1 = (answer data call m).1 ∧
      (answer data' call m).2.1 = (answer data call m).2.1 ∧
        SameCycle data (answer data' call m).2.2 := by
  cases call with
  | readDi bit => exact ⟨rfl, rfl, h⟩
  | writeDo bit value => exact ⟨rfl, rfl, h⟩
  | readAi channel => exact ⟨rfl, rfl, h⟩
  | writeAo channel value => exact ⟨rfl, rfl, h⟩
  | getCycleTime =>
    refine ⟨?_, rfl, h⟩
    show [Value.i32 (cappedCycleTime data'.cycleTimeNs)] = [.i32 (cappedCycleTime data.cycleTimeNs)]
    rw [h.cycleTimeNs]
  | getCycleCount =>
    refine ⟨?_, rfl, h⟩
    show [Value.i64 data'.cycleCount] = [.i64 data.cycleCount]
    rw [h.cycleCount]
  | isFirstCycle =>
    refine ⟨?_, rfl, h⟩
    show [Value.i32 (if data'.firstCycle then 1 else 0)] =
      [.i32 (if data.firstCycle then 1 else 0)]
    rw [h.firstCycle]
  | logMessage ptr len =>
    -- a message changes the log at most
    have hsame : ∀ data : HostState, (answer data (.logMessage ptr len) m).1 = [] ∧
        (answer data (.logMessage ptr len) m).2.1 = m ∧
          ((answer data (.logMessage ptr len) m).2.2 = data ∨
            ∃ message, (answer data (.logMessage ptr len) m).2.2 = data.pushLog message) := by
      intro data
      have hm : (programStore data m).memoryAt ((programStore data m).getMemory (some 0)) =
          some m := rfl
      rw [answer, Store.allowedCall]
      simp only [hm]
      split
      · exact ⟨rfl, rfl, .inl rfl⟩
      · split
        · split
          · exact ⟨rfl, rfl, .inr ⟨_, rfl⟩⟩
          · exact ⟨rfl, rfl, .inl rfl⟩
        · exact ⟨rfl, rfl, .inl rfl⟩
    obtain ⟨hresults, hmem, hdata⟩ := hsame data'
    refine ⟨hresults.trans (hsame data).1.symm, hmem.trans (hsame data).2.1.symm, ?_⟩
    rcases hdata with heq | ⟨message, heq⟩
    · rw [heq]
      exact h
    · rw [heq]
      exact h.pushLog message

/-- Until a call sets the flag, the host functions answer as they would without the limit. -/
theorem serves_plcImports (data : HostState) :
    List.Forall₂ (Serves .observed (SameCycle data))
      (plcImports.map (stopping HostState.rateLimitHit)) (allowedImports data) := by
  rw [plcImports, allowedImports, List.map_map, List.forall₂_map_left_iff,
    List.forall₂_map_right_iff, List.forall₂_same]
  intro function _ args mem data' hsame
  simp only [Function.comp_apply, stopping]
  cases hostCallOf function.name args with
  | none => exact .inr ⟨rfl, rfl⟩
  | some call =>
    by_cases hlimit : data'.maxHostCallsPerCycle ≤ data'.hostCallCount
    · simp only [serve_refused call mem hlimit]
      exact .inl rfl
    · simp only [serve_let_through call mem hlimit]
      have hcounted : SameCycle data { data' with hostCallCount := data'.hostCallCount + 1 } :=
        ⟨hsame.cycleTimeNs, hsame.cycleCount, hsame.firstCycle⟩
      obtain ⟨hresults, hmem, hcycle⟩ := answer_sameCycle hcounted call mem
      cases (answer { data' with hostCallCount := data'.hostCallCount + 1 }
        call mem).2.2.rateLimitHit
      · refine ⟨hcycle, ?_⟩
        rw [hresults, hmem]
        rfl
      · exact .inl rfl

/-- A program that leaves the reserved bytes alone still sees the inputs of its cycle. -/
theorem Presents.sameImage (h : Presents image inputs info) (hsame : SameImage image mem) :
    Presents mem inputs info := by
  have hvalue : ∀ {a n : Nat}, a + n ≤ reservedBytes → mem.value a n = image.value a n := by
    intro a n hle
    apply Memory.value_congr
    intro i _ hi
    exact hsame.reserved i (Nat.lt_of_lt_of_le hi hle)
  constructor
  case digital => exact (hvalue (by decide)).trans h.digital
  case analog =>
    intro i
    have hi := i.isLt
    refine (hvalue ?_).trans (h.analog i)
    simp only [aiOffset, reservedBytes]
    omega
  case cycleTime => exact (hvalue (by decide)).trans h.cycleTime
  case flags => exact (hvalue (by decide)).trans h.flags
  case cycleCount => exact (hvalue (by decide)).trans h.cycleCount
  case faultCode => exact (hvalue (by decide)).trans h.faultCode
  case reserved =>
    intro i hlo hhi
    refine (hsame.reserved i ?_).trans (h.reserved i hlo hhi)
    exact Nat.lt_trans hhi (by decide)

theorem readDi_presents (h : Presents m inputs info) (hsize : m.size = pageSize) (bit : BitVec 32) :
    readDiFromMemory m bit =
      (getElem inputs.digitalInputs 0 Nat.zero_lt_one).getLsbD bit.toNat := by
  have hroom : ¬ m.size < diOffset + 4 := by rw [hsize]; decide
  rw [readDiFromMemory, h.digital]
  by_cases hbit : 32 ≤ bit.toNat
  · rw [if_pos (.inl hbit), BitVec.getLsbD_of_ge _ _ hbit]
  · rw [if_neg (fun hor => hor.elim hbit hroom), BitVec.ofNat_toNat]
    rfl

theorem readAi_presents (h : Presents m inputs info) (hsize : m.size = pageSize)
    (channel : BitVec 32) : readAiFromMemory m channel =
      if hc : channel.toNat < 16 then inputs.analogInputs.get ⟨channel.toNat, hc⟩ else 0 := by
  rw [readAiFromMemory]
  by_cases hc : channel.toNat < 16
  · have hroom : ¬ m.size < aiOffset + channel.toNat * 2 + 2 := by
      rw [hsize]
      simp only [aiOffset, pageSize]
      omega
    rw [if_neg (by simpa only [channels, not_le] using hc), dif_pos hc]
    simp only
    rw [if_neg hroom, h.analog ⟨channel.toNat, hc⟩, BitVec.ofNat_toNat]
    rfl
  · rw [if_pos (by simpa only [channels, not_lt] using hc), dif_neg hc]

theorem hostCallOf_readAi (x : BitVec 32) :
    hostCallOf "read_ai" [.i32 x] = some (.readAi x) := rfl

theorem inputAnswers_readAi (cycleTimeNs : BitVec 64) (inputs : ProcessData) (x : Int) :
    inputAnswers cycleTimeNs inputs "read_ai" [x] =
      some (if h : (BitVec.ofInt 32 x).toNat < 16 then
        (inputs.analogInputs.get ⟨(BitVec.ofInt 32 x).toNat, h⟩).signExtend 32 else 0) := rfl

/-- During a cycle the host answers from the inputs of the cycle. -/
theorem hostsAnswer_allowedImports (h : Presents image inputs info)
    (hsize : image.size = pageSize) :
    HostsAnswer (allowedImports data) (inputAnswers data.cycleTimeNs inputs) image where
  length := rfl
  read := by
    intro i k function f himport hf hname xs mem hsame hxs
    have hpresents := h.sameImage hsame
    have hmem : mem.size = pageSize := hsame.size.trans hsize
    obtain rfl : f = fun args m => (hostCallOf function.name args).map fun call =>
        ((answer data call m).1, (answer data call m).2.1) := by
      rw [allowedImports, List.getElem?_map, himport] at hf
      exact (Option.some.inj hf).symm
    rcases readArity_cases hname with ⟨hdi, rfl⟩ | ⟨hai, rfl⟩ | ⟨htime, rfl⟩
    · obtain ⟨x, rfl⟩ := List.length_eq_one_iff.1 hxs
      simp only [List.map_cons, List.map_nil, hdi, hostCallOf, inputAnswers, if_true,
        Option.map_some, answer_readDi, readDi_presents hpresents hmem]
    · obtain ⟨x, rfl⟩ := List.length_eq_one_iff.1 hxs
      have hread := readAi_presents hpresents hmem (BitVec.ofInt 32 x)
      rw [hai, List.map_cons, List.map_nil, inputAnswers_readAi]
      show (hostCallOf "read_ai" [.i32 (BitVec.ofInt 32 x)]).map _ = _
      rw [hostCallOf_readAi, Option.map_some, answer_readAi, hread]
      -- both sides ask whether the channel exists
      by_cases hc : (BitVec.ofInt 32 x).toNat < 16
      · rw [dif_pos hc, dif_pos hc]
        rfl
      · rw [dif_neg hc, dif_neg hc]
        rfl
    · obtain rfl := List.length_eq_zero_iff.1 hxs
      simp only [List.map_nil, htime, hostCallOf, inputAnswers]
      rfl

end Functions

/-! ## Cycles -/

section Cycles

variable {b : Build} {ast : CompilationUnit} {typed : TypedUnit} {m : Wasm.Module}
  {float : FloatOps}
  {j : Nat} {unit : ProgramUnit} {pou : TypedPou} {ρ : Compiler.Store} {mem mem₀ : Memory}
  {symbols : SymbolTable} {data : HostState} {inputs : ProcessData}

/-- Writing the inputs leaves the variables alone. -/
theorem represents_preStep (h : Represents symbols mem ρ mem)
    (habove : ∀ {name info}, symbols.Plain name info → reservedBytes ≤ info.offset)
    (inputs : ProcessData) (info : WasmSystemInfo) :
    Represents symbols (preStepImage inputs info mem) ρ (preStepImage inputs info mem) where
  size := rfl
  value := by
    intro name v hv
    refine Eq.trans (congrArg v.dataType.integer ?_) (h.value hv)
    apply Memory.value_congr
    intro i hi _
    apply byte_preStepImage
    have hfar := Nat.le_trans (habove hv) hi
    simp only [HostOwned, diOffset, aiOffset, channels, sysinfoOffset, sysinfoSize, reservedBytes]
      at hfar ⊢
    omega
  truth := h.truth
  outside := fun _ _ => rfl

/-- One cycle within the limit, where the rest of the cycles is known. -/
theorem scansMean_cons {a : Signal RunError Compiler.Store} {r : HostedResult HostState}
    {plain : CallResult} {mem₁ : Memory} {Q : HostState → Prop}
    {f : Compiler.Store → Signal RunError Compiler.Store}
    {g : HostState → Memory → Option (Except Fault Memory)} (hsize : mem₁.size = pageSize)
    (h : CallMeans symbols mem₁ a plain) (hfollows : ResultFollows .observed Q r plain)
    (hlimit : r ≠ some (.error .observed))
    (hrest : ∀ ρ vs mem data, r = some (.ok (vs, mem, data)) → Q data → mem.size = pageSize →
      Represents symbols mem ρ mem → ScansMean symbols (f ρ) (g data mem)) :
    ScansMean symbols (a.finish.andThen f) (afterCall r g) := by
  rcases r with _ | e | ⟨vs, mem', data'⟩
  · obtain rfl : plain = none := hfollows
    obtain rfl := h.of_none
    rfl
  · rcases hfollows with rfl | rfl
    · exact absurd rfl hlimit
    · obtain ⟨e', rfl, rfl⟩ := h.of_error
      rfl
  · obtain ⟨hdata, rfl⟩ := hfollows
    obtain ⟨ρ, hsignal, hmem⟩ := h.of_ok
    have hnext := hrest ρ vs mem' data' rfl hdata (hmem.size.trans hsize) hmem.self
    -- a RETURN ends the cycle as its last statement does
    rcases hsignal with rfl | rfl
    · exact hnext
    · exact hnext

/-- The cycles of a plain program from a memory that represents a store. -/
theorem scansMean_runScans (hcheck : check b ast = .ok typed) (hunit : ast.units[j]? = some unit)
    (hpou : typed.units[j]? = some pou) (hplain : PlainPou ast unit pou) (n d : Nat)
    (cycles : List ProcessData) (data : HostState) (ρ : Compiler.Store) (mem : Memory)
    (hsize : mem.size = pageSize) (hmem : Represents pou.symbols mem ρ mem)
    (hlimit : WithinCallLimit typed.module float n (d + 2) (importHostFunctions.length + j) data
      cycles mem) :
    ScansMean pou.symbols
      (meanScans pou.symbols.types data.cycleTimeNs n unit.body cycles ρ)
      (runScans typed.module float plcImports n (d + 2) (importHostFunctions.length + j) data
        cycles mem) := by
  induction cycles generalizing data ρ mem with
  | nil => exact ⟨mem, rfl, hsize, hmem⟩
  | cons inputs rest ih =>
    have hpre := represents_preStep hmem (reserved_pou hcheck hunit hpou hplain) inputs
      (cycleInfo data)
    have hpage : (preStepImage inputs (cycleInfo data) mem).size = pageSize :=
      size_preStepImage.trans hsize
    have hshown : Presents (preStepImage inputs (cycleInfo data) mem) inputs (cycleInfo data) :=
      presents_preStepImage inputs (cycleInfo data) (by rw [hsize]; decide)
    obtain ⟨p, hp⟩ : ∃ p, programOf typed.module float [] = some p := by
      rw [programOf, module_bodies]
      exact ⟨_, rfl⟩
    have hallowed : programOf typed.module float (allowedImports data) =
        some { p with hosts := allowedImports data } := by
      rw [programOf_module hp, programOf, module_bodies]
      rfl
    have hmeans := call_pou hcheck hunit hpou hplain hallowed
      (hostsAnswer_allowedImports hshown hpage) n d hpage hpre
    have hfollows := callHosted_follows (p := p) (serves_plcImports data) n (d + 2)
      (importHostFunctions.length + j) [] (preStepImage inputs (cycleInfo data) mem) data
      ⟨rfl, rfl, rfl⟩
    rw [WithinCallLimit, runScans, hp] at hlimit
    rw [meanScans, runScans, hp]
    simp only at hlimit ⊢
    -- within the limit, watching the flag changes nothing
    rcases callHosted_stopping HostState.rateLimitHit p plcImports n (d + 2)
      (importHostFunctions.length + j) [] (preStepImage inputs (cycleInfo data) mem) data with
      hstop | hsame
    · rw [hstop] at hlimit
      exact absurd rfl hlimit
    · rw [hsame]
      refine scansMean_cons hpage hmeans hfollows ?_ ?_
      · intro hstop
        rw [hstop] at hlimit
        exact hlimit rfl
      · intro ρ' vs mem' data' hr hcycle hsize' hmem'
        rw [hr] at hlimit
        rw [← hcycle.cycleTimeNs]
        exact ih data'.advanceCycle ρ' mem' hsize' hmem' hlimit

/-- A new instance has one page of zeros. -/
theorem initialMemory_module (typed : TypedUnit) :
    typed.module.initialMemory = some (.zeroed pageSize) := by
  show some (Memory.zeroed (1 * pageSize)) = _
  rw [Nat.one_mul]

/-- Cycles that come to their end under watch stay within the limit. -/
theorem withinCallLimit_of_isOk {n d i : Nat} {cycles : List ProcessData}
    (h : (runScans m float (plcImports.map (stopping HostState.rateLimitHit)) n d i data cycles
      mem).any Except.isOk = true) : WithinCallLimit m float n d i data cycles mem := by
  intro hstop
  rw [hstop] at h
  cases h

/-- Two cycles with an input of 4 and of 2. -/
def addingCycles : List ProcessData :=
  [{ ProcessData.zero with analogInputs := Vector.replicate 16 4 },
    { ProcessData.zero with analogInputs := Vector.replicate 16 2 }]

end Cycles

end VirtualPlc.Host
