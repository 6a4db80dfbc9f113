import VirtualPlc.Fieldbus.BusScan
import VirtualPlc.Word.Tiling

/-!
# The layout of the network

The inputs of the slaves tile the input image in the order of the positions, and so do their
outputs. Working the layout out again does not change it, so a network is determined by its slaves:
`network_layout` says this of slaves added in any order.
-/

set_option autoImplicit false

namespace VirtualPlc.Fieldbus

open VirtualPlc.Word

/-! ## The layout -/

namespace SlaveConfig

/-- The slave's part of the input image. -/
def inputSpan (slave : SlaveConfig) : Span := ⟨slave.inputOffset, slave.inputSize⟩

/-- The slave's part of the output image. -/
def outputSpan (slave : SlaveConfig) : Span := ⟨slave.outputOffset, slave.outputSize⟩

end SlaveConfig

/-- In both images each slave comes right after the one before it. -/
theorem spans_placeSlaves (inputOffset outputOffset : Nat) (slaves : List SlaveConfig) :
    (placeSlaves inputOffset outputOffset slaves).1.map (·.inputSpan) =
        consecutive inputOffset (slaves.map (·.calculateInputSize)) ∧
      (placeSlaves inputOffset outputOffset slaves).1.map (·.outputSpan) =
        consecutive outputOffset (slaves.map (·.calculateOutputSize)) := by
  induction slaves generalizing inputOffset outputOffset with
  | nil => exact ⟨rfl, rfl⟩
  | cons slave rest ih =>
    obtain ⟨hinputs, houtputs⟩ := ih (inputOffset + slave.calculateInputSize)
      (outputOffset + slave.calculateOutputSize)
    constructor
    · rw [placeSlaves, List.map_cons, List.map_cons, consecutive, hinputs]
      rfl
    · rw [placeSlaves, List.map_cons, List.map_cons, consecutive, houtputs]
      rfl

/-- The layout does not look at the places that slaves have had. -/
theorem placeSlaves_map_unplaced (inputOffset outputOffset : Nat) (slaves : List SlaveConfig) :
    placeSlaves inputOffset outputOffset (slaves.map (·.unplaced)) =
      placeSlaves inputOffset outputOffset slaves := by
  induction slaves generalizing inputOffset outputOffset with
  | nil => rfl
  | cons slave rest ih =>
    rw [List.map_cons, placeSlaves, placeSlaves, SlaveConfig.unplaced_calculateInputSize,
      SlaveConfig.unplaced_calculateOutputSize, ih]
    rfl

theorem placeSlaves_congr {slaves others : List SlaveConfig}
    (h : slaves.map (·.unplaced) = others.map (·.unplaced)) (inputOffset outputOffset : Nat) :
    placeSlaves inputOffset outputOffset slaves = placeSlaves inputOffset outputOffset others := by
  rw [← placeSlaves_map_unplaced, h, placeSlaves_map_unplaced]

namespace NetworkConfig

variable {network other : NetworkConfig} {slaves : List SlaveConfig}

/-- The sizes and offsets are those that `recalculateOffsets` works out. -/
def Recalculated (network : NetworkConfig) : Prop := network.recalculateOffsets = network

theorem recalculated_new : Recalculated .new := rfl

/-- Networks with the same slaves are laid out in the same way. -/
theorem recalculateOffsets_congr
    (h : network.slaves.map (·.unplaced) = other.slaves.map (·.unplaced)) :
    network.recalculateOffsets = other.recalculateOffsets := by
  simp only [recalculateOffsets, placeSlaves_congr h]

theorem recalculated_recalculateOffsets (network : NetworkConfig) :
    network.recalculateOffsets.Recalculated :=
  recalculateOffsets_congr (placeSlaves_unplaced 0 0 network.slaves)

theorem Recalculated.foldl_addSlave (h : network.Recalculated) (slaves : List SlaveConfig) :
    (slaves.foldl addSlave network).Recalculated := by
  induction slaves generalizing network with
  | nil => exact h
  | cons slave rest ih => exact ih (recalculated_recalculateOffsets _)

/-- Slaves in the order of their positions are determined by what they are. -/
theorem eq_of_perm (hnetwork : network.Recalculated) (hother : other.Recalculated)
    (h : (network.slaves.map (·.unplaced)).Perm (other.slaves.map (·.unplaced))) :
    network = other := by
  have hsorted : ∀ network : NetworkConfig,
      (network.slaves.map (·.unplaced)).Pairwise fun a b => a.position < b.position := by
    intro network
    rw [List.pairwise_map]
    exact List.pairwise_map.mp network.ordered
  have heq : network.slaves.map (·.unplaced) = other.slaves.map (·.unplaced) := by
    refine h.eq_of_pairwise (fun a b _ _ hab hba => ?_) (hsorted network) (hsorted other)
    exact absurd (BitVec.lt_trans hab hba) (BitVec.lt_irrefl _)
  rw [← hnetwork, ← hother, recalculateOffsets_congr heq]

/-- The slaves tile both images in the order of their positions, with the lengths of their PDOs. -/
structure LaidOut (network : NetworkConfig) : Prop where
  inputs : Tiling 0 network.totalInputSize (network.slaves.map (·.inputSpan))
  outputs : Tiling 0 network.totalOutputSize (network.slaves.map (·.outputSpan))
  sizes : ∀ slave ∈ network.slaves,
    slave.inputSize = (slave.txPdos.map (·.byteLength)).sum ∧
      slave.outputSize = (slave.rxPdos.map (·.byteLength)).sum

theorem Recalculated.laidOut (h : network.Recalculated) : network.LaidOut := by
  have htotals := placeSlaves_totals 0 0 network.slaves
  rw [← h]
  refine ⟨?_, ?_, fun slave hmem => placeSlaves_sizes hmem⟩
  · show Tiling 0 (placeSlaves 0 0 network.slaves).2.1 _
    rw [htotals, recalculateOffsets, (spans_placeSlaves ..).1]
    exact tiling_consecutive 0 _
  · show Tiling 0 (placeSlaves 0 0 network.slaves).2.2 _
    rw [htotals, recalculateOffsets, (spans_placeSlaves ..).2]
    exact tiling_consecutive 0 _

end NetworkConfig

end VirtualPlc.Fieldbus
