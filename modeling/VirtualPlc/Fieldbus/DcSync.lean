import VirtualPlc.Word.Checked

/-!
# Distributed clocks

System time, statistics and controller of the distributed clocks. Times of the network are words of
64 bits; signed values are integers in the range of `i64`. The clock of the master is outside: what
reads it takes the time elapsed since the reference instant.
-/

set_option autoImplicit false

namespace VirtualPlc.Fieldbus

open VirtualPlc.Word

/-- A duration in nanoseconds. -/
structure Duration where
  ns : Nat
  lt : ns < 2 ^ 64 * 10 ^ 9
deriving DecidableEq, Repr

/-- Synchronisation mode of a slave. -/
inductive DcSyncMode where
  | disabled
  | freeRun
  | smSync
  | dcSync0
  | dcSync01
deriving DecidableEq, Repr

/-- Configuration of the clock of one slave. -/
structure DcSlaveConfig where
  position : BitVec 16
  dcSupported : Bool
  syncMode : DcSyncMode
  sync0CycleNs : BitVec 64
  sync1CycleNs : BitVec 64
  sync0ShiftNs : BitVec 32
  propagationDelayNs : BitVec 32
  systemTimeOffset : BitVec 64
  isReferenceClock : Bool
deriving DecidableEq, Repr

namespace DcSlaveConfig

def new (position : BitVec 16) : DcSlaveConfig where
  position := position
  dcSupported := false
  syncMode := .disabled
  sync0CycleNs := 0
  sync1CycleNs := 0
  sync0ShiftNs := 0
  propagationDelayNs := 0
  systemTimeOffset := 0
  isReferenceClock := false

/-- Configures for Sync0. -/
def withSync0 (config : DcSlaveConfig) (cycleNs : BitVec 64) : DcSlaveConfig :=
  { config with dcSupported := true, syncMode := .dcSync0, sync0CycleNs := cycleNs }

end DcSlaveConfig

/-- System time of the distributed clocks. -/
structure DcSystemTime where
  dcTimeAtReference : BitVec 64
  driftCorrectionNs : Int
  lastDcTime : BitVec 64
  cycleCount : Nat
deriving DecidableEq, Repr

/-- A time that is clamped to the range of `u64`. -/
def clampTime (time : Int) : BitVec 64 :=
  if time < 0 then 0 else if 2 ^ 64 - 1 < time then BitVec.allOnes 64 else BitVec.ofInt 64 time

namespace DcSystemTime

def new : DcSystemTime := ⟨0, 0, 0, 0⟩

/-- Starts from a time of the reference clock. -/
def initializeAt (dcTimeNs : BitVec 64) : DcSystemTime := ⟨dcTimeNs, 0, dcTimeNs, 0⟩

/-- The time expected now. -/
def expectedDcTime (b : Build) (t : DcSystemTime) (elapsed : Duration) :
    Except Failure (BitVec 64) := do
  let sum ← i128Add b t.dcTimeAtReference.toNat elapsed.ns
  let expected ← i128Add b sum t.driftCorrectionNs
  return clampTime expected

/-- Takes over a measured time and answers its drift. A sixteenth of the drift is corrected. -/
def update (b : Build) (t : DcSystemTime) (elapsed : Duration) (measured : BitVec 64) :
    Except Failure (Int × DcSystemTime) := do
  let expected ← t.expectedDcTime b elapsed
  let drift := (measured - expected).toInt
  let correction ← i64Add b t.driftCorrectionNs (drift / 2 ^ 4)
  let cycleCount ← u64Add b t.cycleCount 1
  return (drift, { t with
    driftCorrectionNs := correction
    lastDcTime := measured
    cycleCount := cycleCount })

end DcSystemTime

/-- Statistics of the synchronisation. -/
structure DcSyncStats where
  syncCycles : Nat
  minDeviationNs : Int
  maxDeviationNs : Int
  sumDeviationNs : Int
  syncErrors : Nat
  errorThresholdNs : Int
deriving DecidableEq, Repr

namespace DcSyncStats

def new (errorThresholdNs : Int) : DcSyncStats where
  syncCycles := 0
  minDeviationNs := i64Max
  maxDeviationNs := i64Min
  sumDeviationNs := 0
  syncErrors := 0
  errorThresholdNs := errorThresholdNs

/-- A deviation above the threshold is an error. -/
def countError (b : Build) (stats : DcSyncStats) (distance : Int) : Except Failure Nat :=
  if stats.errorThresholdNs < distance then u64Add b stats.syncErrors 1 else .ok stats.syncErrors

/-- Records a deviation. -/
def record (b : Build) (stats : DcSyncStats) (deviationNs : Int) : Except Failure DcSyncStats := do
  let syncCycles ← u64Add b stats.syncCycles 1
  let distance ← i64Abs b deviationNs
  let syncErrors ← stats.countError b distance
  return { stats with
    syncCycles := syncCycles
    minDeviationNs := min stats.minDeviationNs deviationNs
    maxDeviationNs := max stats.maxDeviationNs deviationNs
    sumDeviationNs := (stats.sumDeviationNs + deviationNs).bmod (2 ^ 64)
    syncErrors := syncErrors }

/-- Mean deviation. -/
def meanDeviationNs (stats : DcSyncStats) : Except Failure (Option Int) :=
  if 0 < stats.syncCycles then some <$> i64Div stats.sumDeviationNs (asI64 stats.syncCycles)
  else .ok none

/-- Peak-to-peak jitter. -/
def jitterNs (b : Build) (stats : DcSyncStats) : Except Failure (Option Int) :=
  if 0 < stats.syncCycles ∧ stats.minDeviationNs ≠ i64Max then
    some <$> i64Sub b stats.maxDeviationNs stats.minDeviationNs
  else .ok none

/-- Resets the statistics. -/
def reset (stats : DcSyncStats) : DcSyncStats := new stats.errorThresholdNs

end DcSyncStats

/-- Controller of the distributed clocks. -/
structure DcController where
  slaves : List DcSlaveConfig
  referenceClock : Option (BitVec 16)
  systemTime : DcSystemTime
  stats : DcSyncStats
  cycleTimeNs : BitVec 64
  active : Bool
deriving DecidableEq, Repr

namespace DcController

def new (cycleTime : Duration) : DcController where
  slaves := []
  referenceClock := none
  systemTime := .new
  stats := .new 1000
  cycleTimeNs := BitVec.ofNat 64 cycleTime.ns
  active := false

/-- Adds a slave. The first one with a clock becomes the reference. -/
def addSlave (dc : DcController) (config : DcSlaveConfig) : DcController :=
  if config.dcSupported && dc.referenceClock.isNone then
    { dc with
      referenceClock := some config.position
      slaves := dc.slaves ++ [{ config with isReferenceClock := true }] }
  else { dc with slaves := dc.slaves ++ [config] }

/-- Starts the synchronisation, where there is a reference clock. -/
def initializeAt (dc : DcController) (initialDcTime : BitVec 64) : DcController :=
  if dc.referenceClock.isNone then { dc with active := false }
  else
    { dc with
      systemTime := .initializeAt initialDcTime
      stats := dc.stats.reset
      active := true }

/-- Takes over a measured time of the reference clock and answers its deviation. -/
def update (b : Build) (dc : DcController) (elapsed : Duration) (measured : BitVec 64) :
    Except Failure (Int × DcController) :=
  if dc.active then do
    let (deviation, systemTime) ← dc.systemTime.update b elapsed measured
    let stats ← dc.stats.record b deviation
    return (deviation, { dc with systemTime := systemTime, stats := stats })
  else .ok (0, dc)

/-- Forgets all slaves and starts afresh. -/
def clear (dc : DcController) : DcController :=
  { dc with
    slaves := []
    referenceClock := none
    active := false
    stats := dc.stats.reset
    systemTime := .new }

end DcController

end VirtualPlc.Fieldbus
