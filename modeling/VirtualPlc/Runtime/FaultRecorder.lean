import VirtualPlc.Buffer.Ring
import VirtualPlc.Runtime.IoImage

/-!
# The fault recorder

A ring of frames, one for each cycle, that a fault freezes. `Recording` says what it is for: the
frames accepted since the last reset, in order. The recorder follows it through every sequence of
operations (`Follows.run`), and both of its readers show the last frames of it (`recorder_shows`).
-/

set_option autoImplicit false

namespace VirtualPlc.Runtime

open VirtualPlc.Buffer

/-- Size of a snapshot in bytes. -/
def ioSnapshotSize : Nat := 256

/-- Largest `usize`. -/
def usizeMax : Nat := 2 ^ 64 - 1

/-- Bytes that a slice can occupy, `isize::MAX`. -/
def isizeMax : Nat := 2 ^ 63 - 1

/-- Times of the phases of a cycle, in nanoseconds. -/
structure CyclePhaseTimings where
  ioRead : Nat
  logicExec : Nat
  ioWrite : Nat
  fieldbusExchange : Nat
  total : Nat
deriving DecidableEq, Repr

/-- All times zero. -/
def CyclePhaseTimings.default : CyclePhaseTimings := ⟨0, 0, 0, 0, 0⟩

/-- Reasons for a fault frame. -/
inductive FaultReason where
  | none
  | cycleOverrun
  | wasmTrap
  | watchdogTimeout
  | fieldbusError
  | wkcError
  | logicError
  | external
deriving DecidableEq, Repr

/-- The bytes of inputs or outputs. -/
abbrev Snapshot := Vector (BitVec 8) ioSnapshotSize

namespace Snapshot

/-- Copies the `n` little-endian bytes of a value. -/
def copyLe (s : Snapshot) (offset n v : Nat) : Snapshot :=
  Vector.ofFn fun i =>
    if offset ≤ i.val ∧ i.val < offset + n then BitVec.ofNat 8 (v / 256 ^ (i.val - offset))
    else s.get i

/-- Packs a digital word and the analog values after it, as far as they fit. -/
def pack (s : Snapshot) (digital : BitVec 32) (analog : Vector (BitVec 16) 16) : Snapshot :=
  (List.finRange 16).foldl
    (fun s i =>
      let offset := 4 + i.val * 2
      if offset + 2 ≤ ioSnapshotSize then s.copyLe offset 2 (analog.get i).toNat else s)
    (s.copyLe 0 4 digital.toNat)

end Snapshot

/-- One frame of the recorder. -/
structure FaultFrame where
  cycle : BitVec 64
  timestampNs : BitVec 64
  inputs : Snapshot
  outputs : Snapshot
  phaseTimings : CyclePhaseTimings
  wkc : Option (BitVec 16)
  expectedWkc : Option (BitVec 16)
  faultReason : FaultReason
  valid : Bool
deriving DecidableEq, Repr

namespace FaultFrame

/-- An empty frame. -/
def default : FaultFrame where
  cycle := 0
  timestampNs := 0
  inputs := Vector.replicate ioSnapshotSize 0
  outputs := Vector.replicate ioSnapshotSize 0
  phaseTimings := .default
  wkc := none
  expectedWkc := none
  faultReason := .none
  valid := false

/-- A frame of a cycle. -/
def new (cycle timestampNs : BitVec 64) (phaseTimings : CyclePhaseTimings) : FaultFrame :=
  { FaultFrame.default with
    cycle := cycle
    timestampNs := timestampNs
    phaseTimings := phaseTimings
    valid := true }

def setInputs (frame : FaultFrame) (data : ProcessData) : FaultFrame :=
  { frame with
    inputs :=
      frame.inputs.pack (getElem data.digitalInputs 0 Nat.zero_lt_one) data.analogInputs }

def setOutputs (frame : FaultFrame) (data : ProcessData) : FaultFrame :=
  { frame with
    outputs :=
      frame.outputs.pack (getElem data.digitalOutputs 0 Nat.zero_lt_one) data.analogOutputs }

def setWkc (frame : FaultFrame) (actual expected : BitVec 16) : FaultFrame :=
  { frame with wkc := some actual, expectedWkc := some expected }

def setFault (frame : FaultFrame) (reason : FaultReason) : FaultFrame :=
  { frame with faultReason := reason }

end FaultFrame

/-- What a caller can set in the frame that `recordCycle` has returned. -/
inductive FrameSetter where
  | inputs (data : ProcessData)
  | outputs (data : ProcessData)
  | wkc (actual expected : BitVec 16)
  | fault (reason : FaultReason)

/-- A frame after one setter. -/
def FrameSetter.apply (frame : FaultFrame) : FrameSetter → FaultFrame
  | inputs data => frame.setInputs data
  | outputs data => frame.setOutputs data
  | wkc actual expected => frame.setWkc actual expected
  | fault reason => frame.setFault reason

/-- The recorder: a boxed slice of `n` frames, which is not larger than a slice can be. Instants are
nanoseconds. -/
structure FaultRecorder (n : Nat) where
  frames : Vector FaultFrame n
  writePos : Fin n
  frameCount : Nat
  startTime : Nat
  frozen : Bool
  faultFrameIndex : Option (Fin n)
  allocated : n * (2 * ioSnapshotSize) ≤ isizeMax

namespace FaultRecorder

variable {n : Nat}

theorem capacity_pos (r : FaultRecorder n) : 0 < n := Nat.zero_lt_of_lt r.writePos.isLt

/-- A new recorder. The allocation panics where the frames do not fit into a slice. -/
def new (capacity now : Nat) : Option (FaultRecorder (max capacity 1)) :=
  if h : max capacity 1 * (2 * ioSnapshotSize) ≤ isizeMax then
    some
      { frames := Vector.replicate _ .default
        writePos := ⟨0, Nat.lt_of_lt_of_le Nat.zero_lt_one (Nat.le_max_right capacity 1)⟩
        frameCount := 0
        startTime := now
        frozen := false
        faultFrameIndex := none
        allocated := h }
  else none

/-- Frames that fit can be allocated. -/
theorem exists_new (capacity now : Nat)
    (h : max capacity 1 * (2 * ioSnapshotSize) ≤ isizeMax) : ∃ r, new capacity now = some r := by
  rw [new, dif_pos h]
  exact ⟨_, rfl⟩

/-- The capacity. -/
def capacity (_ : FaultRecorder n) : Nat := n

/-- The number of frames that can be read, `frame_count()`. -/
def availableFrames (r : FaultRecorder n) : Nat := min r.frameCount r.capacity

/-- The time since the start, `elapsed().as_nanos() as u64`. -/
def timestampNs (r : FaultRecorder n) (now : Nat) : BitVec 64 := BitVec.ofNat 64 (now - r.startTime)

/-- The position after this one. -/
def nextPos (r : FaultRecorder n) : Fin n :=
  ⟨(r.writePos.val + 1) % n, Nat.mod_lt _ r.capacity_pos⟩

/-- Writes a frame and moves on; the count saturates. -/
def push (r : FaultRecorder n) (frame : FaultFrame) : FaultRecorder n :=
  { r with
    frames := r.frames.set r.writePos.val frame r.writePos.isLt
    writePos := r.nextPos
    frameCount := min (r.frameCount + 1) usizeMax }

/-- Records a normal cycle. The index of the new frame stands for the reference to it. -/
def recordCycle (r : FaultRecorder n) (now : Nat) (cycle : BitVec 64)
    (timings : CyclePhaseTimings) : Option (Fin n) × FaultRecorder n :=
  if r.frozen then (none, r)
  else (some r.writePos, r.push (.new cycle (r.timestampNs now) timings))

/-- Changes the frame that a reference points to. -/
def updateFrame (r : FaultRecorder n) (i : Fin n) (f : FaultFrame → FaultFrame) : FaultRecorder n :=
  { r with frames := r.frames.set i.val (f (r.frames.get i)) i.isLt }

/-- Records a fault frame and freezes. -/
def recordFrame (r : FaultRecorder n) (frame : FaultFrame) : FaultRecorder n :=
  if r.frozen then r
  else { r.push frame with faultFrameIndex := some r.writePos, frozen := true }

/-- Records a fault. -/
def recordFault (r : FaultRecorder n) (now : Nat) (cycle : BitVec 64) (reason : FaultReason)
    (timings : CyclePhaseTimings) : FaultRecorder n :=
  r.recordFrame ((FaultFrame.new cycle (r.timestampNs now) timings).setFault reason)

/-- Records a fault with its inputs and outputs. -/
def recordFaultWithIo (r : FaultRecorder n) (now : Nat) (cycle : BitVec 64) (reason : FaultReason)
    (timings : CyclePhaseTimings) (inputs outputs : ProcessData) : FaultRecorder n :=
  r.recordFrame ((((FaultFrame.new cycle (r.timestampNs now) timings).setInputs inputs).setOutputs
    outputs).setFault reason)

/-- Freezes without a new frame. -/
def freeze (r : FaultRecorder n) : FaultRecorder n := { r with frozen := true }

/-- The fault frame, if a fault was recorded. -/
def faultFrame (r : FaultRecorder n) : Option FaultFrame := r.faultFrameIndex.map r.frames.get

/-- The frames from oldest to newest. -/
def framesChronological (r : FaultRecorder n) : List FaultFrame :=
  -- the oldest frame of a full ring is the next one to be overwritten
  let start := if r.capacity < r.frameCount then r.writePos.val else 0
  (List.range r.availableFrames).map fun i =>
    r.frames.get ⟨(start + i) % n, Nat.mod_lt _ r.capacity_pos⟩

/-- The index of the frame before the last `i`. -/
def recentIndex (r : FaultRecorder n) (i : Nat) : Fin n :=
  if r.writePos.val = 0 then ⟨n - 1 - i, by have := r.capacity_pos; omega⟩
  else ⟨(r.writePos.val + n - 1 - i) % n, Nat.mod_lt _ r.capacity_pos⟩

/-- The most recent frames, newest first. -/
def recentFrames (r : FaultRecorder n) (count : Nat) : List FaultFrame :=
  ((List.range (min count r.availableFrames)).map fun i => r.frames.get (r.recentIndex i)).filter
    (·.valid)

/-- Clears all frames and unfreezes. -/
def reset (r : FaultRecorder n) (now : Nat) : FaultRecorder n :=
  { r with
    frames := Vector.replicate n .default
    writePos := ⟨0, r.capacity_pos⟩
    frameCount := 0
    startTime := now
    frozen := false
    faultFrameIndex := none }

end FaultRecorder

/-- Operations on a recorder; a caller of `recordCycle` fills in the frame it gets. -/
inductive RecorderOp where
  | recordCycle (now : Nat) (cycle : BitVec 64) (timings : CyclePhaseTimings)
      (setters : List FrameSetter)
  | recordFault (now : Nat) (cycle : BitVec 64) (reason : FaultReason) (timings : CyclePhaseTimings)
  | recordFaultWithIo (now : Nat) (cycle : BitVec 64) (reason : FaultReason)
      (timings : CyclePhaseTimings) (inputs outputs : ProcessData)
  | freeze
  | reset (now : Nat)

namespace RecorderOp

/-- Whether an operation freezes the recorder. -/
def freezes : RecorderOp → Bool
  | recordFault _ _ _ _ | recordFaultWithIo _ _ _ _ _ _ | freeze => true
  | recordCycle _ _ _ _ | reset _ => false

def isReset : RecorderOp → Bool
  | reset _ => true
  | recordCycle _ _ _ _ | recordFault _ _ _ _ | recordFaultWithIo _ _ _ _ _ _ | freeze => false

end RecorderOp

/-- A frame after the setters of its caller. -/
def FaultFrame.fill (frame : FaultFrame) (setters : List FrameSetter) : FaultFrame :=
  setters.foldl FrameSetter.apply frame

namespace FaultRecorder

variable {n : Nat}

/-- The recorder after an operation. -/
def apply (r : FaultRecorder n) : RecorderOp → FaultRecorder n
  | .recordCycle now cycle timings setters =>
    match r.recordCycle now cycle timings with
    | (none, r) => r
    | (some i, r) => r.updateFrame i (·.fill setters)
  | .recordFault now cycle reason timings => r.recordFault now cycle reason timings
  | .recordFaultWithIo now cycle reason timings inputs outputs =>
    r.recordFaultWithIo now cycle reason timings inputs outputs
  | .freeze => r.freeze
  | .reset now => r.reset now

/-- The recorder after a list of operations. -/
def run (r : FaultRecorder n) (ops : List RecorderOp) : FaultRecorder n := ops.foldl apply r

end FaultRecorder

/-- What a recorder is for: the frames it has accepted since it was last reset, when that was,
whether it accepts no more, and whether the last frame is a fault. -/
structure Recording where
  accepted : List FaultFrame
  since : Nat
  frozen : Bool
  faulted : Bool

namespace Recording

/-- Nothing has been accepted yet. -/
def start (now : Nat) : Recording := ⟨[], now, false, false⟩

/-- A frame of a cycle of this recording. -/
def frame (a : Recording) (now : Nat) (cycle : BitVec 64) (timings : CyclePhaseTimings) :
    FaultFrame :=
  .new cycle (BitVec.ofNat 64 (now - a.since)) timings

/-- Accepts a frame unless frozen. -/
def accept (a : Recording) (frame : FaultFrame) : Recording :=
  if a.frozen then a else { a with accepted := a.accepted ++ [frame] }

/-- Accepts a fault frame unless frozen, and freezes. -/
def acceptFault (a : Recording) (frame : FaultFrame) : Recording :=
  if a.frozen then a
  else { a with accepted := a.accepted ++ [frame], frozen := true, faulted := true }

/-- The recording after an operation. -/
def apply (a : Recording) : RecorderOp → Recording
  | .recordCycle now cycle timings setters => a.accept ((a.frame now cycle timings).fill setters)
  | .recordFault now cycle reason timings =>
    a.acceptFault ((a.frame now cycle timings).setFault reason)
  | .recordFaultWithIo now cycle reason timings inputs outputs =>
    a.acceptFault
      ((((a.frame now cycle timings).setInputs inputs).setOutputs outputs).setFault reason)
  | .freeze => { a with frozen := true }
  | .reset now => .start now

/-- The recording after a list of operations. -/
def run (a : Recording) (ops : List RecorderOp) : Recording := ops.foldl apply a

end Recording

/-! ## The recorder follows the recording -/

theorem FrameSetter.valid_apply (frame : FaultFrame) (setter : FrameSetter) :
    (setter.apply frame).valid = frame.valid := by
  cases setter with
  | inputs data => rw [apply, FaultFrame.setInputs]
  | outputs data => rw [apply, FaultFrame.setOutputs]
  | wkc actual expected => rfl
  | fault reason => rfl

/-- Setters leave a frame valid. -/
theorem FaultFrame.valid_fill (frame : FaultFrame) (setters : List FrameSetter) :
    (frame.fill setters).valid = frame.valid := by
  induction setters generalizing frame with
  | nil => rfl
  | cons setter rest ih => exact (ih (setter.apply frame)).trans (setter.valid_apply frame)

namespace FaultRecorder

variable {n : Nat} {r : FaultRecorder n} {a : Recording}

/-- The ring holds the accepted frames, and the rest of the recorder says the same as the recording.
-/
structure Follows (r : FaultRecorder n) (a : Recording) : Prop where
  holds : Holds r.frames r.capacity_pos a.accepted
  writePos : r.writePos.val = a.accepted.length % n
  frameCount : r.frameCount = min a.accepted.length usizeMax
  startTime : r.startTime = a.since
  frozen : r.frozen = a.frozen
  faultFrame : r.faultFrame = if a.faulted then a.accepted.getLast? else none
  sealed : a.faulted = true → a.frozen = true
  valid : ∀ frame ∈ a.accepted, frame.valid = true

theorem follows_new {capacity now : Nat} {r : FaultRecorder (max capacity 1)}
    (h : new capacity now = some r) : r.Follows (.start now) := by
  rw [new] at h
  split at h
  · cases h
    exact ⟨.nil _ _, (Nat.zero_mod _).symm, rfl, rfl, rfl, rfl, id, fun _ hmem => by cases hmem⟩
  · cases h

/-- A new frame follows a frame that is accepted, before the recorder freezes. -/
theorem Follows.push (h : r.Follows a) {frame : FaultFrame} (hopen : a.frozen = false)
    (hvalid : frame.valid = true) :
    (r.push frame).Follows { a with accepted := a.accepted ++ [frame] } := by
  -- an open recorder has no fault, so there is no index that the frame could spoil
  have hunfaulted : a.faulted = false :=
    Bool.eq_false_of_not_eq_true fun hfaulted => by
      rw [h.sealed hfaulted] at hopen
      cases hopen
  have hindex : r.faultFrameIndex = none := by
    have hnone := h.faultFrame
    rw [hunfaulted] at hnone
    exact Option.map_eq_none_iff.mp hnone
  constructor
  case holds =>
    have hpush := h.holds.push frame
    simp only [← h.writePos] at hpush
    exact hpush
  case writePos =>
    show (r.writePos.val + 1) % n = (a.accepted ++ [frame]).length % n
    rw [h.writePos, List.length_append, List.length_singleton, Nat.mod_add_mod]
  case frameCount =>
    show min (r.frameCount + 1) usizeMax = min (a.accepted ++ [frame]).length usizeMax
    rw [h.frameCount, List.length_append, List.length_singleton]
    omega
  case startTime => exact h.startTime
  case frozen => exact h.frozen
  case faultFrame =>
    rw [hunfaulted]
    exact Option.map_eq_none_iff.mpr hindex
  case sealed => exact h.sealed
  case valid =>
    intro f hf
    rcases List.mem_append.mp hf with hold | hnew
    · exact h.valid f hold
    · rwa [List.mem_singleton.mp hnew]

/-- Recording a cycle and then filling in its frame writes the filled frame. -/
theorem apply_recordCycle (r : FaultRecorder n) (now : Nat) (cycle : BitVec 64)
    (timings : CyclePhaseTimings) (setters : List FrameSetter) :
    r.apply (.recordCycle now cycle timings setters) =
      if r.frozen then r
      else r.push ((FaultFrame.new cycle (r.timestampNs now) timings).fill setters) := by
  rw [apply, recordCycle]
  cases r.frozen with
  | true => rfl
  | false =>
    simp only [Bool.false_eq_true, if_false, updateFrame, push, Vector.set_set]
    congr 3
    exact Vector.getElem_set_self r.writePos.isLt

/-- A fault frame follows a fault that is accepted. -/
theorem Follows.recordFrame (h : r.Follows a) {frame : FaultFrame} (hvalid : frame.valid = true) :
    (r.recordFrame frame).Follows (a.acceptFault frame) := by
  rw [FaultRecorder.recordFrame, Recording.acceptFault, h.frozen]
  cases hfrozen : a.frozen with
  | true => exact h
  | false =>
    have hpush := h.push hfrozen hvalid
    refine { hpush with frozen := rfl, sealed := fun _ => rfl, faultFrame := ?_ }
    show some ((r.frames.set r.writePos.val frame r.writePos.isLt).get r.writePos) =
      (a.accepted ++ [frame]).getLast?
    rw [List.getLast?_concat]
    exact congrArg some (Vector.getElem_set_self r.writePos.isLt)

/-- Every operation keeps the recorder in step with the recording. -/
theorem Follows.apply (h : r.Follows a) (op : RecorderOp) : (r.apply op).Follows (a.apply op) := by
  have htimestamp : ∀ now, r.timestampNs now = BitVec.ofNat 64 (now - a.since) :=
    fun now => by rw [timestampNs, h.startTime]
  cases op with
  | recordCycle now cycle timings setters =>
    rw [apply_recordCycle, Recording.apply, Recording.accept, h.frozen, htimestamp]
    cases hfrozen : a.frozen with
    | true => exact h
    | false =>
      have hvalid : ((a.frame now cycle timings).fill setters).valid = true :=
        (FaultFrame.valid_fill _ setters).trans rfl
      have hpush := h.push hfrozen hvalid
      rw [hfrozen] at hpush
      exact hpush
  | recordFault now cycle reason timings =>
    rw [FaultRecorder.apply, recordFault, htimestamp]
    exact h.recordFrame rfl
  | recordFaultWithIo now cycle reason timings inputs outputs =>
    rw [FaultRecorder.apply, recordFaultWithIo, htimestamp]
    exact h.recordFrame rfl
  | freeze => exact { h with frozen := rfl, sealed := fun _ => rfl }
  | reset now =>
    exact ⟨.nil _ _, (Nat.zero_mod _).symm, rfl, rfl, rfl, rfl, id, fun _ hmem => by cases hmem⟩

theorem Follows.run (h : r.Follows a) (ops : List RecorderOp) :
    (r.run ops).Follows (a.run ops) := by
  induction ops generalizing r a with
  | nil => exact h
  | cons op rest ih => exact ih (h.apply op)

/-! ## What is read -/

/-- Frames that fit into a slice can be counted without saturation. -/
theorem capacity_lt_usizeMax (r : FaultRecorder n) : n < usizeMax := by
  have hallocated := r.allocated
  simp only [ioSnapshotSize, isizeMax, usizeMax] at hallocated ⊢
  omega

theorem Follows.availableFrames (h : r.Follows a) :
    r.availableFrames = min a.accepted.length n := by
  have hlt := r.capacity_lt_usizeMax
  rw [FaultRecorder.availableFrames, h.frameCount, capacity]
  omega

/-- The chronological reader shows the last frames in order, at every fill level. -/
theorem Follows.framesChronological (h : r.Follows a) :
    r.framesChronological = lastElements (min a.accepted.length n) a.accepted := by
  have hlt := r.capacity_lt_usizeMax
  rw [FaultRecorder.framesChronological, h.availableFrames,
    ← h.holds.oldest (Nat.min_le_left _ n) (Nat.min_le_right a.accepted.length _)]
  refine List.map_congr_left fun i _ => slot_congr ?_
  rw [h.frameCount, h.writePos, capacity]
  by_cases hfull : n < a.accepted.length
  · -- the ring has wrapped: the next slot has the oldest frame
    have hover : n < min a.accepted.length usizeMax := by omega
    have hstart : a.accepted.length - min a.accepted.length n + i + n = a.accepted.length + i := by
      omega
    rw [if_pos hover, Nat.mod_add_mod, ← hstart, Nat.add_mod_right]
  · have hunder : ¬ n < min a.accepted.length usizeMax := by omega
    have hstart : a.accepted.length - min a.accepted.length n = 0 := by omega
    rw [if_neg hunder, hstart]

/-- The index of the other reader counts back from the last frame. -/
theorem Follows.recentIndex (h : r.Follows a) {i : Nat} (hi : i < min a.accepted.length n) :
    (r.recentIndex i).val = (a.accepted.length - 1 - i) % n := by
  have hquot := Nat.div_add_mod a.accepted.length n
  have hpos := h.writePos
  have hbound := r.writePos.isLt
  have hsum : a.accepted.length - 1 - i + n =
      r.writePos.val + n - 1 - i + n * (a.accepted.length / n) := by omega
  have hmod : (a.accepted.length - 1 - i) % n = (r.writePos.val + n - 1 - i) % n := by
    rw [← Nat.add_mod_right, hsum, Nat.add_mul_mod_self_left]
  rw [hmod, FaultRecorder.recentIndex]
  split
  · next hzero =>
    rw [hzero, Nat.zero_add, Nat.mod_eq_of_lt (by omega)]
  · rfl

/-- The reader of recent frames shows the last ones, newest first. -/
theorem Follows.recentFrames (h : r.Follows a) (k : Nat) :
    r.recentFrames k = (lastElements (min k (min a.accepted.length n)) a.accepted).reverse := by
  have hcount : min k (min a.accepted.length n) ≤ a.accepted.length := by omega
  have hnewest := h.holds.newest hcount (by omega)
  have hmap : ((List.range (min k r.availableFrames)).map fun i =>
      r.frames.get (r.recentIndex i)) =
      (lastElements (min k (min a.accepted.length n)) a.accepted).reverse := by
    rw [← hnewest, h.availableFrames]
    refine List.map_congr_left fun i hi => ?_
    have hi' := List.mem_range.mp hi
    exact congrArg r.frames.get (Fin.ext (h.recentIndex (by omega)))
  rw [FaultRecorder.recentFrames, hmap]
  refine List.filter_eq_self.mpr fun frame hmem => h.valid frame ?_
  exact List.mem_of_mem_drop (List.mem_reverse.mp hmem)

/-! ## Freezing -/

/-- A frozen recorder is changed by a reset alone. -/
theorem apply_of_frozen (hfrozen : r.frozen = true) {op : RecorderOp} (hop : op.isReset = false) :
    r.apply op = r := by
  cases op with
  | recordCycle now cycle timings setters => rw [apply_recordCycle, if_pos hfrozen]
  | recordFault now cycle reason timings => rw [apply, recordFault, recordFrame, if_pos hfrozen]
  | recordFaultWithIo now cycle reason timings inputs outputs =>
    rw [apply, recordFaultWithIo, recordFrame, if_pos hfrozen]
  | freeze =>
    rw [apply, freeze, ← hfrozen]
  | reset now => cases hop

theorem run_of_frozen (hfrozen : r.frozen = true) {ops : List RecorderOp}
    (hops : ops.any RecorderOp.isReset = false) : r.run ops = r := by
  induction ops with
  | nil => rfl
  | cons op rest ih =>
    rw [List.any_cons, Bool.or_eq_false_iff] at hops
    rw [run, List.foldl_cons, apply_of_frozen hfrozen hops.1]
    exact ih hops.2

/-- A fault record and a freeze leave the recorder frozen. -/
theorem frozen_apply (r : FaultRecorder n) {op : RecorderOp} (hop : op.freezes = true) :
    (r.apply op).frozen = true := by
  have hframe : ∀ frame, (r.recordFrame frame).frozen = true := by
    intro frame
    rw [recordFrame]
    split
    · next hfrozen => exact hfrozen
    · rfl
  cases op with
  | recordCycle now cycle timings setters => cases hop
  | recordFault now cycle reason timings => exact hframe _
  | recordFaultWithIo now cycle reason timings inputs outputs => exact hframe _
  | freeze => rfl
  | reset now => cases hop

/-- For every capacity and every sequence of operations: the frames are the last ones of those
accepted since the last reset, oldest first; the recent ones are the last of them, newest first;
once a fault record or a freeze is followed by no reset, nothing changes any more; and the fault
frame is the newest frame if a fault was recorded. -/
theorem recorder_shows {capacity now : Nat} {r : FaultRecorder (max capacity 1)}
    (hnew : new capacity now = some r) (ops : List RecorderOp) :
    let accepted := ((Recording.start now).run ops).accepted
    (r.run ops).framesChronological =
        lastElements (min accepted.length (max capacity 1)) accepted ∧
      (∀ k, (r.run ops).recentFrames k =
        (lastElements (min k (min accepted.length (max capacity 1))) accepted).reverse) ∧
      (∀ before op after, ops = before ++ op :: after → op.freezes = true →
        after.any RecorderOp.isReset = false → r.run ops = r.run (before ++ [op])) ∧
      (((Recording.start now).run ops).faulted = true →
        (r.run ops).faultFrame = accepted.getLast?) := by
  have hfollows := (follows_new hnew).run ops
  refine ⟨hfollows.framesChronological, hfollows.recentFrames, ?_, fun hfaulted => ?_⟩
  · rintro before op after rfl hfreezes hreset
    have hfrozen := (r.run before).frozen_apply hfreezes
    rw [run, run, List.foldl_append, List.foldl_append, List.foldl_cons]
    exact run_of_frozen hfrozen hreset
  · have hframe := hfollows.faultFrame
    rwa [if_pos hfaulted] at hframe

/-- Six cycles in four frames. -/
theorem recorder_shows_wrapped :
    ∃ r : FaultRecorder (max 4 1), new 4 0 = some r ∧
      (r.run ((List.range 6).map fun i =>
        .recordCycle i (BitVec.ofNat 64 i) .default [])).framesChronological.map (·.cycle) =
        [2, 3, 4, 5] := by
  obtain ⟨r, hr⟩ := exists_new 4 0 (by decide)
  refine ⟨r, hr, ?_⟩
  rw [(recorder_shows hr _).1]
  rfl

end FaultRecorder

end VirtualPlc.Runtime
