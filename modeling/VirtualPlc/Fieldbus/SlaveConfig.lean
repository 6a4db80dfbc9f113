import Mathlib.Algebra.BigOperators.Group.List.Basic
import VirtualPlc.Word.Checked

/-!
# Slaves and the network

The configuration of EtherCAT slaves, as the transport reports it, and of the network. The network
keeps its slaves in the order of their positions, at most one at each; sizes and offsets are worked
out again after each change (`NetworkConfig.recalculateOffsets`).
-/

set_option autoImplicit false

namespace VirtualPlc.Fieldbus

open VirtualPlc.Word

/-- States of a slave. -/
inductive SlaveState where
  | init
  | preOp
  | safeOp
  | op
  | bootstrap
deriving DecidableEq, Repr

/-- Identification of a slave. -/
structure SlaveIdentity where
  vendorId : BitVec 32
  productCode : BitVec 32
  revision : BitVec 32
  serial : BitVec 32
deriving DecidableEq, Repr

/-- A PDO mapping, with its length in bits. -/
structure PdoMapping where
  totalBits : BitVec 16
deriving DecidableEq, Repr

/-- Length in bytes, rounded up. -/
def PdoMapping.byteLength (pdo : PdoMapping) : Nat := (pdo.totalBits.toNat + 7) / 8

/-- Configuration of a slave. -/
structure SlaveConfig where
  position : BitVec 16
  configuredAddress : BitVec 16
  identity : SlaveIdentity
  state : SlaveState
  txPdos : List PdoMapping
  rxPdos : List PdoMapping
  inputOffset : Nat
  inputSize : Nat
  outputOffset : Nat
  outputSize : Nat
  dcSupported : Bool
  name : String
deriving DecidableEq, Repr

namespace SlaveConfig

def new (position : BitVec 16) (identity : SlaveIdentity) : SlaveConfig where
  position := position
  configuredAddress := 0x1000 + position
  identity := identity
  state := .init
  txPdos := []
  rxPdos := []
  inputOffset := 0
  inputSize := 0
  outputOffset := 0
  outputSize := 0
  dcSupported := false
  name := ""

/-- Input size from the TxPDOs. -/
def calculateInputSize (slave : SlaveConfig) : Nat := (slave.txPdos.map PdoMapping.byteLength).sum

/-- Output size from the RxPDOs. -/
def calculateOutputSize (slave : SlaveConfig) : Nat := (slave.rxPdos.map PdoMapping.byteLength).sum

end SlaveConfig

/-- What SOEM says about a slave. -/
structure SoemSlave where
  eepManufacturer : BitVec 32
  eepId : BitVec 32
  eepRevision : BitVec 32
  name : String
  configuredAddr : BitVec 16
  hasDc : Bool
  inputSize : BitVec 32
  outputSize : BitVec 32
  state : Option SlaveState
deriving DecidableEq, Repr

/-- Takes over SOEM's slave. Its serial number and its PDO mappings are not available. -/
def parseSlaveInfo (idx : Nat) (slave : SoemSlave) : SlaveConfig :=
  { SlaveConfig.new (BitVec.ofNat 16 idx)
      ⟨slave.eepManufacturer, slave.eepId, slave.eepRevision, 0⟩ with
    name := slave.name
    configuredAddress := slave.configuredAddr
    dcSupported := slave.hasDc
    inputSize := slave.inputSize.toNat
    outputSize := slave.outputSize.toNat
    state := slave.state.getD .init }

/-! ## The network -/

/-- Puts a slave at its position, and takes the place of the one that is there. -/
def insertSlave (config : SlaveConfig) : List SlaveConfig → List SlaveConfig
  | [] => [config]
  | slave :: rest =>
    if config.position < slave.position then config :: slave :: rest
    else if config.position = slave.position then config :: rest
    else slave :: insertSlave config rest

/-- Lays the slaves out one after the other from the given offsets; the totals come last. -/
def placeSlaves (inputOffset outputOffset : Nat) : List SlaveConfig → List SlaveConfig × Nat × Nat
  | [] => ([], inputOffset, outputOffset)
  | slave :: rest =>
    let placed := { slave with
      inputOffset := inputOffset
      inputSize := slave.calculateInputSize
      outputOffset := outputOffset
      outputSize := slave.calculateOutputSize }
    let (others, totals) := placeSlaves (inputOffset + slave.calculateInputSize)
      (outputOffset + slave.calculateOutputSize) rest
    (placed :: others, totals)

/-- Positions of slaves. -/
abbrev positions (slaves : List SlaveConfig) : List (BitVec 16) := slaves.map (·.position)

theorem positions_placeSlaves (inputOffset outputOffset : Nat) (slaves : List SlaveConfig) :
    positions (placeSlaves inputOffset outputOffset slaves).1 = positions slaves := by
  induction slaves generalizing inputOffset outputOffset with
  | nil => rfl
  | cons slave rest ih => simp [placeSlaves, ih]

/-- Members after an insertion: the new slave, and the others. -/
theorem mem_insertSlave {config slave : SlaveConfig} {slaves : List SlaveConfig}
    (h : slave ∈ insertSlave config slaves) : slave = config ∨ slave ∈ slaves := by
  induction slaves with
  | nil => exact .inl (List.mem_singleton.mp h)
  | cons first rest ih =>
    rw [insertSlave] at h
    split at h
    · rcases List.mem_cons.mp h with heq | hmem
      · exact .inl heq
      · exact .inr hmem
    · split at h
      · rcases List.mem_cons.mp h with heq | hmem
        · exact .inl heq
        · exact .inr (List.mem_cons_of_mem _ hmem)
      · rcases List.mem_cons.mp h with heq | hmem
        · exact .inr (List.mem_cons.mpr (.inl heq))
        · exact (ih hmem).imp_right (List.mem_cons_of_mem _)

/-- Slaves in the order of their positions. -/
def Ordered (slaves : List SlaveConfig) : Prop := (positions slaves).Pairwise (· < ·)

theorem ordered_insertSlave {config : SlaveConfig} {slaves : List SlaveConfig}
    (h : Ordered slaves) : Ordered (insertSlave config slaves) := by
  induction slaves with
  | nil => exact List.pairwise_singleton _ _
  | cons first rest ih =>
    obtain ⟨hfirst, hrest⟩ := List.pairwise_cons.mp h
    rw [insertSlave]
    split
    · next hlt =>
      refine List.pairwise_cons.mpr ⟨fun position hmem => ?_, h⟩
      rcases List.mem_cons.mp hmem with heq | hmem
      · exact heq ▸ hlt
      · exact BitVec.lt_trans hlt (hfirst position hmem)
    · next hge =>
      split
      · next heq =>
        refine List.pairwise_cons.mpr ⟨fun position hmem => ?_, hrest⟩
        have hold : first.position < position := hfirst position hmem
        show config.position < position
        rwa [heq]
      · next hne =>
        refine List.pairwise_cons.mpr ⟨fun position hmem => ?_, ih hrest⟩
        obtain ⟨slave, hslave, rfl⟩ := List.mem_map.mp hmem
        rcases mem_insertSlave hslave with rfl | hold
        · bv_omega
        · exact hfirst _ (List.mem_map_of_mem hold)

/-- The network: its slaves and the sizes of the process image. -/
structure NetworkConfig where
  slaves : List SlaveConfig
  totalInputSize : Nat
  totalOutputSize : Nat
  ordered : Ordered slaves

namespace NetworkConfig

def new : NetworkConfig := ⟨[], 0, 0, List.Pairwise.nil⟩

/-- Works out sizes and offsets again. -/
def recalculateOffsets (network : NetworkConfig) : NetworkConfig where
  slaves := (placeSlaves 0 0 network.slaves).1
  totalInputSize := (placeSlaves 0 0 network.slaves).2.1
  totalOutputSize := (placeSlaves 0 0 network.slaves).2.2
  ordered := by
    rw [Ordered, positions_placeSlaves]
    exact network.ordered

/-- Adds a slave. -/
def addSlave (network : NetworkConfig) (config : SlaveConfig) : NetworkConfig :=
  recalculateOffsets { network with
    slaves := insertSlave config network.slaves
    ordered := ordered_insertSlave network.ordered }

/-- The slave at a position. -/
def getSlave (network : NetworkConfig) (position : BitVec 16) : Option SlaveConfig :=
  network.slaves.find? (·.position = position)

/-- Sets the state of every slave. -/
def setStates (network : NetworkConfig) (state : SlaveState) : NetworkConfig :=
  { network with
    slaves := network.slaves.map fun slave => { slave with state := state }
    ordered := by
      have hpositions : positions (network.slaves.map fun slave => { slave with state := state }) =
          positions network.slaves := by simp [Function.comp_def]
      rw [Ordered, hpositions]
      exact network.ordered }

/-- Forgets all slaves. -/
def clear (_network : NetworkConfig) : NetworkConfig := new

end NetworkConfig

end VirtualPlc.Fieldbus
