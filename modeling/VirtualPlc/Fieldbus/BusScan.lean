import Mathlib.Algebra.BigOperators.Group.List.Lemmas
import VirtualPlc.Fieldbus.Ethercat

/-!
# What a scan leaves in the network

A scan takes every slave over, and lays the network out by the lengths of the PDO mappings
(`scanSlaves_returns`). The sizes that the transport has reported are not looked at, and survive
only where they are those of the PDOs (`Scanned.keepsSizes_iff`).
-/

set_option autoImplicit false

namespace VirtualPlc.Fieldbus

open VirtualPlc.Runtime VirtualPlc.Word

/-- The slave without its place in the process image. -/
def SlaveConfig.unplaced (slave : SlaveConfig) : SlaveConfig :=
  { slave with inputOffset := 0, inputSize := 0, outputOffset := 0, outputSize := 0 }

namespace SlaveConfig

@[simp] theorem unplaced_position (slave : SlaveConfig) :
    slave.unplaced.position = slave.position :=
  rfl

@[simp] theorem unplaced_calculateInputSize (slave : SlaveConfig) :
    slave.unplaced.calculateInputSize = slave.calculateInputSize := rfl

@[simp] theorem unplaced_calculateOutputSize (slave : SlaveConfig) :
    slave.unplaced.calculateOutputSize = slave.calculateOutputSize := rfl

end SlaveConfig

/-- Length of the TxPDOs of all slaves. -/
def inputLength (slaves : List SlaveConfig) : Nat := (slaves.map (·.calculateInputSize)).sum

/-- Length of the RxPDOs of all slaves. -/
def outputLength (slaves : List SlaveConfig) : Nat := (slaves.map (·.calculateOutputSize)).sum

/-! ## Layout -/

/-- The layout keeps everything but the places. -/
theorem placeSlaves_unplaced (inputOffset outputOffset : Nat) (slaves : List SlaveConfig) :
    (placeSlaves inputOffset outputOffset slaves).1.map (·.unplaced) =
      slaves.map (·.unplaced) := by
  induction slaves generalizing inputOffset outputOffset with
  | nil => rfl
  | cons slave rest ih =>
    simp only [placeSlaves, List.map_cons, ih]
    rfl

theorem placeSlaves_totals (inputOffset outputOffset : Nat) (slaves : List SlaveConfig) :
    (placeSlaves inputOffset outputOffset slaves).2 =
      (inputOffset + inputLength slaves, outputOffset + outputLength slaves) := by
  induction slaves generalizing inputOffset outputOffset with
  | nil => rfl
  | cons slave rest ih =>
    rw [placeSlaves, ih]
    simp only [inputLength, outputLength, List.map_cons, List.sum_cons, Nat.add_assoc]

/-- Every slave gets the sizes of its PDOs. -/
theorem placeSlaves_sizes {inputOffset outputOffset : Nat} {slaves : List SlaveConfig}
    {slave : SlaveConfig} (h : slave ∈ (placeSlaves inputOffset outputOffset slaves).1) :
    slave.inputSize = slave.calculateInputSize ∧ slave.outputSize = slave.calculateOutputSize := by
  induction slaves generalizing inputOffset outputOffset with
  | nil => cases h
  | cons first rest ih =>
    rcases List.mem_cons.mp h with rfl | hmem
    · exact ⟨rfl, rfl⟩
    · exact ih hmem

theorem insertSlave_perm {config : SlaveConfig} {slaves : List SlaveConfig}
    (h : config.position ∉ positions slaves) :
    (insertSlave config slaves).Perm (config :: slaves) := by
  induction slaves with
  | nil => exact .refl _
  | cons first rest ih =>
    obtain ⟨hfirst, hrest⟩ := not_or.mp (fun hmem => h (List.mem_cons.mpr hmem))
    rw [insertSlave]
    by_cases hlt : config.position < first.position
    · rw [if_pos hlt]
    · rw [if_neg hlt, if_neg hfirst]
      exact ((ih hrest).cons first).trans (List.Perm.swap config first rest)

/-- Slaves that differ in their places only have the same data elsewhere. -/
theorem perm_map_of_unplaced {α : Type} {slaves others : List SlaveConfig} (f : SlaveConfig → α)
    (h : (slaves.map (·.unplaced)).Perm (others.map (·.unplaced)))
    (hf : ∀ slave, f slave.unplaced = f slave) : (slaves.map f).Perm (others.map f) := by
  have hmap := h.map f
  have hcomp : f ∘ SlaveConfig.unplaced = f := funext hf
  rwa [List.map_map, List.map_map, hcomp] at hmap

/-! ## The network after a scan -/

/-- The network holds these slaves, laid out by their PDOs. -/
structure Holds (network : NetworkConfig) (slaves : List SlaveConfig) : Prop where
  perm : (network.slaves.map (·.unplaced)).Perm (slaves.map (·.unplaced))
  sizes : ∀ slave ∈ network.slaves,
    slave.inputSize = slave.calculateInputSize ∧ slave.outputSize = slave.calculateOutputSize
  totalInput : network.totalInputSize = inputLength slaves
  totalOutput : network.totalOutputSize = outputLength slaves

namespace Holds

variable {network : NetworkConfig} {slaves : List SlaveConfig}

theorem new : Holds .new [] where
  perm := .refl _
  sizes := fun _ hmem => (List.not_mem_nil hmem).elim
  totalInput := rfl
  totalOutput := rfl

theorem addSlave {config : SlaveConfig} (h : Holds network slaves)
    (hnew : config.position ∉ positions slaves) :
    Holds (network.addSlave config) (slaves ++ [config]) := by
  have hpositions : (positions network.slaves).Perm (positions slaves) :=
    perm_map_of_unplaced SlaveConfig.position h.perm SlaveConfig.unplaced_position
  have hfree : config.position ∉ positions network.slaves := fun hmem =>
    hnew (hpositions.mem_iff.mp hmem)
  have hinserted : ((insertSlave config network.slaves).map (·.unplaced)).Perm
      ((slaves ++ [config]).map (·.unplaced)) := by
    rw [List.map_append]
    refine ((insertSlave_perm hfree).map _).trans ?_
    exact (h.perm.cons _).trans (List.perm_append_singleton _ _).symm
  have htotals := placeSlaves_totals 0 0 (insertSlave config network.slaves)
  refine ⟨?_, fun slave hmem => placeSlaves_sizes hmem, ?_, ?_⟩
  · show ((placeSlaves 0 0 (insertSlave config network.slaves)).1.map (·.unplaced)).Perm _
    rwa [placeSlaves_unplaced]
  · show (placeSlaves 0 0 (insertSlave config network.slaves)).2.1 = _
    simp only [htotals, Nat.zero_add]
    exact (perm_map_of_unplaced _ hinserted SlaveConfig.unplaced_calculateInputSize).sum_eq
  · show (placeSlaves 0 0 (insertSlave config network.slaves)).2.2 = _
    simp only [htotals, Nat.zero_add]
    exact (perm_map_of_unplaced _ hinserted SlaveConfig.unplaced_calculateOutputSize).sum_eq

/-- Every slave is at its position, with the sizes of its PDOs. -/
theorem getSlave {slave : SlaveConfig} (h : Holds network slaves) (hmem : slave ∈ slaves) :
    ∃ kept, network.getSlave slave.position = some kept ∧
      kept.unplaced = slave.unplaced ∧ kept.inputSize = slave.calculateInputSize ∧
        kept.outputSize = slave.calculateOutputSize := by
  obtain ⟨kept, hkept, heq⟩ := List.mem_map.mp (h.perm.mem_iff.mpr (List.mem_map_of_mem hmem))
  have hposition : kept.position = slave.position := by
    simpa using congrArg SlaveConfig.position heq
  have hnodup : (positions network.slaves).Nodup := network.ordered.imp BitVec.ne_of_lt
  have hsome : (network.getSlave slave.position).isSome :=
    List.find?_isSome.mpr ⟨kept, hkept, decide_eq_true hposition⟩
  obtain ⟨found, hfound⟩ := Option.isSome_iff_exists.mp hsome
  -- positions are distinct, so the slave that is found is the one that was kept
  have hat : found.position = kept.position := by
    have hfoundAt := List.find?_some hfound
    exact (of_decide_eq_true hfoundAt).trans hposition.symm
  have hsame : found = kept :=
    List.inj_on_of_nodup_map hnodup (List.mem_of_find?_eq_some hfound) hkept hat
  obtain ⟨hinput, houtput⟩ := h.sizes kept hkept
  refine ⟨kept, hsame ▸ hfound, heq, hinput.trans ?_, houtput.trans ?_⟩
  · simpa using congrArg SlaveConfig.calculateInputSize heq
  · simpa using congrArg SlaveConfig.calculateOutputSize heq

/-- The network after slaves have been added at free positions. -/
theorem foldl_addSlave {added : List SlaveConfig} (h : Holds network slaves)
    (hdistinct : (positions (slaves ++ added)).Nodup) :
    Holds (added.foldl NetworkConfig.addSlave network) (slaves ++ added) := by
  induction added generalizing network slaves with
  | nil => rwa [List.append_nil]
  | cons slave rest ih =>
    have hsplit : slaves ++ slave :: rest = (slaves ++ [slave]) ++ rest := by simp
    rw [hsplit] at hdistinct ⊢
    have hnew : slave.position ∉ positions slaves := by
      have hfront : (positions (slaves ++ [slave])).Nodup :=
        hdistinct.sublist ((List.sublist_append_left _ rest).map _)
      rw [positions, List.map_append] at hfront
      exact fun hmem => (List.nodup_append.mp hfront).2.2 _ hmem _ (List.mem_singleton_self _) rfl
    exact ih (h.addSlave hnew) hdistinct

end Holds

namespace EthercatMaster

/-- A master adds the slaves that it takes over. -/
theorem network_foldl_addScanned (m : EthercatMaster) (slaves : List SlaveConfig) :
    (slaves.foldl addScanned m).network = slaves.foldl NetworkConfig.addSlave m.network := by
  induction slaves generalizing m with
  | nil => rfl
  | cons slave rest ih => exact ih (m.addScanned slave)

end EthercatMaster

/-! ## The working counter -/

/-- What a slave with these sizes counts: 1 with inputs and 2 with outputs. -/
def wkcWeight (inputSize outputSize : Nat) : Nat :=
  (if 0 < inputSize then 1 else 0) + if 0 < outputSize then 2 else 0

theorem countSize_eq {b : Build} {wkc weight : BitVec 16} {size : Nat}
    (h : wkc.toNat + (if 0 < size then weight.toNat else 0) < 2 ^ 16) :
    countSize b wkc size weight =
      .ok (wkc + BitVec.ofNat 16 (if 0 < size then weight.toNat else 0)) := by
  rw [countSize]
  split
  · next hsize =>
    rw [if_pos hsize] at h
    rw [u16Add, Build.result_of_inRange h, BitVec.ofNat_toNat, BitVec.setWidth_eq]
  · simp

theorem addWkc_eq {b : Build} {wkc : BitVec 16} {slave : SlaveConfig}
    (h : wkc.toNat + wkcWeight slave.inputSize slave.outputSize < 2 ^ 16) :
    addWkc b wkc slave =
      .ok (wkc + BitVec.ofNat 16 (wkcWeight slave.inputSize slave.outputSize)) := by
  rw [wkcWeight] at h ⊢
  have hinputs : countSize b wkc slave.inputSize 1 =
      .ok (wkc + BitVec.ofNat 16 (if 0 < slave.inputSize then 1 else 0)) := by
    refine countSize_eq ?_
    show wkc.toNat + (if 0 < slave.inputSize then 1 else 0) < _
    omega
  have houtputs : countSize b (wkc + BitVec.ofNat 16 (if 0 < slave.inputSize then 1 else 0))
      slave.outputSize 2 = .ok (wkc + BitVec.ofNat 16 (if 0 < slave.inputSize then 1 else 0) +
        BitVec.ofNat 16 (if 0 < slave.outputSize then 2 else 0)) := by
    refine countSize_eq ?_
    rw [BitVec.toNat_add, BitVec.toNat_ofNat]
    show _ + (if 0 < slave.outputSize then 2 else 0) < _
    omega
  rw [addWkc, hinputs, BitVec.ofNat_add, ← BitVec.add_assoc]
  exact houtputs

theorem foldlM_addWkc {b : Build} {wkc : BitVec 16} {slaves : List SlaveConfig}
    (h : wkc.toNat + (slaves.map fun slave => wkcWeight slave.inputSize slave.outputSize).sum <
      2 ^ 16) :
    slaves.foldlM (addWkc b) wkc = .ok (wkc + BitVec.ofNat 16
      (slaves.map fun slave => wkcWeight slave.inputSize slave.outputSize).sum) := by
  induction slaves generalizing wkc with
  | nil => simp [pure, Except.pure]
  | cons slave rest ih =>
    rw [List.map_cons, List.sum_cons] at h ⊢
    rw [List.foldlM_cons, addWkc_eq (by omega)]
    show rest.foldlM (addWkc b) _ = _
    rw [ih]
    · rw [BitVec.ofNat_add, BitVec.add_assoc]
    · rw [BitVec.toNat_add, BitVec.toNat_ofNat]
      omega

/-- What the slaves count by the sizes of their PDOs. -/
def pdoWeights (slaves : List SlaveConfig) : Nat :=
  (slaves.map fun slave => wkcWeight slave.calculateInputSize slave.calculateOutputSize).sum

theorem Holds.calculateWkc {b : Build} {network : NetworkConfig} {slaves : List SlaveConfig}
    (h : Holds network slaves) (hweights : pdoWeights slaves < 2 ^ 16) :
    calculateWkc b network.slaves = .ok (BitVec.ofNat 16 (pdoWeights slaves)) := by
  have hsizes : (network.slaves.map fun slave => wkcWeight slave.inputSize slave.outputSize) =
      network.slaves.map fun slave =>
        wkcWeight slave.calculateInputSize slave.calculateOutputSize := by
    refine List.map_congr_left fun slave hmem => ?_
    obtain ⟨hinput, houtput⟩ := h.sizes slave hmem
    rw [hinput, houtput]
  have hsum : (network.slaves.map fun slave => wkcWeight slave.inputSize slave.outputSize).sum =
      pdoWeights slaves := by
    rw [hsizes]
    exact (perm_map_of_unplaced _ h.perm fun _ => rfl).sum_eq
  have hcount := @foldlM_addWkc b 0 network.slaves (by simpa [hsum])
  rw [hsum] at hcount
  rw [Fieldbus.calculateWkc]
  simpa using hcount

/-! ## The scan -/

/-- The master has taken over the slaves, with the sizes of their PDOs. -/
structure Scanned (m : EthercatMaster) (slaves : List SlaveConfig) : Prop where
  holds : Holds m.network slaves
  inputs : m.processImage.inputs.length = inputLength slaves
  outputs : m.processImage.outputs.length = outputLength slaves
  expectedWkc : m.processImage.expectedWkc = BitVec.ofNat 16 (pdoWeights slaves)

/-- The master has kept the sizes that the transport has reported. -/
structure KeepsSizes (m : EthercatMaster) (slaves : List SlaveConfig) : Prop where
  sizes : ∀ slave ∈ slaves, ∃ kept, m.network.getSlave slave.position = some kept ∧
    kept.inputSize = slave.inputSize ∧ kept.outputSize = slave.outputSize
  totalInput : m.network.totalInputSize = (slaves.map (·.inputSize)).sum
  totalOutput : m.network.totalOutputSize = (slaves.map (·.outputSize)).sum
  inputs : m.processImage.inputs.length = (slaves.map (·.inputSize)).sum
  outputs : m.processImage.outputs.length = (slaves.map (·.outputSize)).sum
  expectedWkc : m.processImage.expectedWkc.toNat =
    (slaves.map fun slave => wkcWeight slave.inputSize slave.outputSize).sum

namespace EthercatMaster

/-- A scan of slaves at distinct positions returns, short of an overflow of the working counter. -/
theorem scanSlaves_returns (b : Build) (m : EthercatMaster) {slaves : List SlaveConfig}
    (hdistinct : (positions slaves).Nodup) (hweights : pdoWeights slaves < 2 ^ 16) :
    ∃ m', m.scanSlaves b (.ok slaves) = .ok (.ok slaves.length, m') ∧ Scanned m' slaves := by
  have hholds : Holds
      (slaves.foldl addScanned (m.beginScan.call (.scanSlaves (.ok slaves)))).network
      slaves := by
    rw [network_foldl_addScanned]
    exact Holds.new.foldl_addSlave hdistinct
  simp only [scanSlaves]
  refine ⟨_, bind_eq_ok.2 ⟨_, hholds.calculateWkc hweights, rfl⟩, ?_, ?_, ?_, rfl⟩
  · exact hholds
  · simpa [ProcessImage.new] using hholds.totalInput
  · simpa [ProcessImage.new] using hholds.totalOutput

end EthercatMaster

/-- Reported sizes are kept exactly where they are those of the PDOs. -/
theorem Scanned.keepsSizes_iff {m : EthercatMaster} {slaves : List SlaveConfig}
    (h : Scanned m slaves) (hweights : pdoWeights slaves < 2 ^ 16) :
    KeepsSizes m slaves ↔ ∀ slave ∈ slaves,
      slave.inputSize = slave.calculateInputSize ∧
        slave.outputSize = slave.calculateOutputSize := by
  constructor
  · intro hkeeps slave hmem
    obtain ⟨kept, hkept, hinput, houtput⟩ := hkeeps.sizes slave hmem
    obtain ⟨kept', hkept', -, hinput', houtput'⟩ := h.holds.getSlave hmem
    rw [hkept] at hkept'
    cases hkept'
    exact ⟨hinput.symm.trans hinput', houtput.symm.trans houtput'⟩
  · intro hsame
    have hinputs : (slaves.map (·.inputSize)).sum = inputLength slaves :=
      congrArg List.sum (List.map_congr_left fun slave hmem => (hsame slave hmem).1)
    have houtputs : (slaves.map (·.outputSize)).sum = outputLength slaves :=
      congrArg List.sum (List.map_congr_left fun slave hmem => (hsame slave hmem).2)
    have hcounts : (slaves.map fun slave => wkcWeight slave.inputSize slave.outputSize).sum =
        pdoWeights slaves := by
      refine congrArg List.sum (List.map_congr_left fun slave hmem => ?_)
      obtain ⟨hinput, houtput⟩ := hsame slave hmem
      rw [hinput, houtput]
    refine ⟨fun slave hmem => ?_, ?_, ?_, ?_, ?_, ?_⟩
    · obtain ⟨kept, hkept, -, hinput, houtput⟩ := h.holds.getSlave hmem
      obtain ⟨hinput', houtput'⟩ := hsame slave hmem
      exact ⟨kept, hkept, hinput.trans hinput'.symm, houtput.trans houtput'.symm⟩
    · rw [hinputs, h.holds.totalInput]
    · rw [houtputs, h.holds.totalOutput]
    · rw [hinputs, h.inputs]
    · rw [houtputs, h.outputs]
    · rw [hcounts, h.expectedWkc, BitVec.toNat_ofNat, Nat.mod_eq_of_lt hweights]

namespace EthercatMaster

/-- Slaves without PDO mappings keep their sizes exactly if all of these are zero. -/
theorem scanSlaves_keepsSizes_iff (b : Build) (m : EthercatMaster) {slaves : List SlaveConfig}
    (hdistinct : (positions slaves).Nodup)
    (hpdos : ∀ slave ∈ slaves, slave.txPdos = [] ∧ slave.rxPdos = []) :
    (∃ m', m.scanSlaves b (.ok slaves) = .ok (.ok slaves.length, m') ∧ KeepsSizes m' slaves) ↔
      ∀ slave ∈ slaves, slave.inputSize = 0 ∧ slave.outputSize = 0 := by
  have hnone : ∀ slave ∈ slaves,
      slave.calculateInputSize = 0 ∧ slave.calculateOutputSize = 0 := by
    intro slave hmem
    obtain ⟨htx, hrx⟩ := hpdos slave hmem
    rw [SlaveConfig.calculateInputSize, SlaveConfig.calculateOutputSize, htx, hrx]
    exact ⟨rfl, rfl⟩
  have hweights : pdoWeights slaves < 2 ^ 16 := by
    have hzero : pdoWeights slaves = 0 := by
      refine List.sum_eq_zero fun weight hmem => ?_
      obtain ⟨slave, hslave, rfl⟩ := List.mem_map.mp hmem
      obtain ⟨hinput, houtput⟩ := hnone slave hslave
      rw [hinput, houtput]
      rfl
    omega
  obtain ⟨m', hm', hscanned⟩ := scanSlaves_returns b m hdistinct hweights
  have hkeeps : (∃ m', m.scanSlaves b (.ok slaves) = .ok (.ok slaves.length, m') ∧
      KeepsSizes m' slaves) ↔ KeepsSizes m' slaves := by
    constructor
    · rintro ⟨m'', hm'', hkeeps⟩
      rw [hm'] at hm''
      cases hm''
      exact hkeeps
    · exact fun hkeeps => ⟨m', hm', hkeeps⟩
  rw [hkeeps, hscanned.keepsSizes_iff hweights]
  refine forall₂_congr fun slave hmem => ?_
  rw [(hnone slave hmem).1, (hnone slave hmem).2]

/-- Two bytes of inputs that SOEM reports. -/
def soemInput : SoemSlave := ⟨2, 0x03f03052, 0x120000, "EL1809", 0x1001, false, 2, 0, some .preOp⟩

/-- They are lost. -/
theorem scanSlaves_keepsSizes_fails :
    ¬ ∃ m', (withTransport ⟨false, ⟨1000000, by decide⟩, 3⟩).scanSlaves
    .release (.ok [parseSlaveInfo 0 soemInput]) = .ok (.ok 1, m') ∧
      KeepsSizes m' [parseSlaveInfo 0 soemInput] := by
  rintro ⟨m', hm', hkeeps⟩
  have htotal : ((withTransport ⟨false, ⟨1000000, by decide⟩, 3⟩).scanSlaves .release
      (.ok [parseSlaveInfo 0 soemInput])).map (fun r => r.2.network.totalInputSize) = .ok 0 := by
    decide
  rw [hm'] at htotal
  have hnone : m'.network.totalInputSize = 0 := Except.ok.inj htotal
  have hreported := hkeeps.totalInput
  rw [hnone] at hreported
  exact absurd hreported (by decide)

/-- Two couplers without process data. -/
theorem scanSlaves_keepsSizes_couplers :
    ∃ m', (withTransport ⟨false, ⟨1000000, by decide⟩, 3⟩).scanSlaves .release
      (.ok [SlaveConfig.new 1 ⟨2, 0, 0, 0⟩, SlaveConfig.new 0 ⟨2, 0, 0, 0⟩]) = .ok (.ok 2, m') ∧
        KeepsSizes m' [SlaveConfig.new 1 ⟨2, 0, 0, 0⟩, SlaveConfig.new 0 ⟨2, 0, 0, 0⟩] :=
  (scanSlaves_keepsSizes_iff _ _ (by decide) (by decide)).2 (by decide)

end EthercatMaster

end VirtualPlc.Fieldbus
