import VirtualPlc.Runtime.IoImage
import VirtualPlc.Runtime.Seqlock
import Mathlib.Data.Fintype.Sum
import Mathlib.Tactic.DeriveFintype

/-!
# Process data behind the seqlock

The process data as an image of fields: both digital words and each analog word on its own, so that
a reader copies them one by one. `reads_consistent` is about any number of readers and any order of
steps; `write_buffer` and `read_buffer` say that an uninterrupted call does what the loop and the
logic see of it.
-/

set_option autoImplicit false

namespace VirtualPlc.Runtime

open Seqlock

/-- A word of the process data. -/
inductive ProcessField where
  | digitalInput
  | digitalOutput
  | analogInput (i : Fin 16)
  | analogOutput (i : Fin 16)
deriving DecidableEq, Fintype

/-- Values of a word. -/
@[reducible] def ProcessField.Value : ProcessField → Type
  | .digitalInput | .digitalOutput => BitVec 32
  | .analogInput _ | .analogOutput _ => BitVec 16

namespace ProcessData

/-- Process data as an image. -/
def image (data : ProcessData) : Image ProcessField.Value
  | .digitalInput => getElem data.digitalInputs 0 Nat.zero_lt_one
  | .digitalOutput => getElem data.digitalOutputs 0 Nat.zero_lt_one
  | .analogInput i => data.analogInputs[i]
  | .analogOutput i => data.analogOutputs[i]

/-- An image as process data. -/
def ofImage (values : Image ProcessField.Value) : ProcessData where
  digitalInputs := Vector.ofFn fun _ => values .digitalInput
  digitalOutputs := Vector.ofFn fun _ => values .digitalOutput
  analogInputs := Vector.ofFn fun i => values (.analogInput i)
  analogOutputs := Vector.ofFn fun i => values (.analogOutput i)

@[simp] theorem image_ofImage (values : Image ProcessField.Value) :
    (ofImage values).image = values := by
  funext f
  cases f <;> simp [image, ofImage]

@[simp] theorem ofImage_image (data : ProcessData) : ofImage data.image = data := by
  cases data
  simp only [ofImage, image, mk.injEq]
  refine ⟨?_, ?_, ?_, ?_⟩
  · ext i hi
    simp [show i = 0 by omega]
  · ext i hi
    simp [show i = 0 by omega]
  · ext i hi
    simp
  · ext i hi
    simp

/-- Stores through the reference to the back buffer. -/
def store (data : ProcessData) (stores : List (Sigma ProcessField.Value)) : ProcessData :=
  ofImage (applyStores stores data.image)

end ProcessData

/-- The double buffer in shared memory. -/
def Seqlock.Memory.buffer (m : Memory ProcessField.Value) : SeqlockBuffer :=
  ⟨.ofImage m.buf0, .ofImage m.buf1, m.frontIdx⟩

namespace SeqlockBuffer

/-- The published image in memory is what `read` gives. -/
theorem read_buffer_eq (m : Memory ProcessField.Value) :
    m.buffer.read = .ofImage (m.buf m.frontIdx) := by
  match m with
  | ⟨_, _, 0⟩ => rfl
  | ⟨_, _, 1⟩ => rfl

variable {ι : Type} [DecidableEq ι] {s : State ι ProcessField.Value}

/-- A whole write by the steps of the protocol is `SeqlockBuffer.write`. -/
theorem write_buffer (hidle : s.writer = .idle) (stores : List (Sigma ProcessField.Value)) :
    ((writeActions ι stores).foldl State.step s).memory.buffer =
      s.memory.buffer.write (·.store stores) := by
  rw [write_uninterrupted hidle]
  obtain ⟨⟨sequence, buf, frontIdx⟩, writer, reader, history, reads⟩ := s
  match frontIdx with
  | 0 => simp [Memory.buffer, Memory.buf0, Memory.buf1, write, ProcessData.store]
  | 1 => simp [Memory.buffer, Memory.buf0, Memory.buf1, write, ProcessData.store]

/-- A whole read by the steps of the protocol completes with what `SeqlockBuffer.read` gives. -/
theorem read_buffer (h : Inv s) {i : ι} (hidle : s.writer = .idle)
    (hresting : (s.reader i).phase = .resting) {fields : List ProcessField}
    (hall : ∀ f, f ∈ fields) :
    ((readActions ProcessField.Value i fields).foldl State.step s).reads =
      s.reads ++ [⟨i, s.memory.buffer.read.image, s.commits, s.commits⟩] := by
  rw [read_uninterrupted h hidle hresting hall, read_buffer_eq, ProcessData.image_ofImage]

/-- In every order of the steps of one writer and any readers, a read that fewer than `2 ^ 63`
commits overtake returns one committed image or the initial one, and a reader's reads never go back
to an older one. -/
theorem reads_consistent (initial : ProcessData) (actions : List (Action ι ProcessField.Value)) :
    let final : State ι ProcessField.Value := State.run initial.image actions
    ∃ commit : Nat → Nat,
      (∀ (p : Nat) (read : Read ι ProcessField.Value), final.reads[p]? = some read → read.Short →
        read.called ≤ commit p ∧ commit p ≤ read.returned ∧
          final.history[commit p]? = some read.image) ∧
      ∀ (p q : Nat) (first second : Read ι ProcessField.Value), p ≤ q →
        final.reads[p]? = some first → final.reads[q]? = some second →
        first.reader = second.reader → first.Short → second.Short → commit p ≤ commit q :=
  (inv_run initial.image actions).commit_of_read

end SeqlockBuffer

end VirtualPlc.Runtime
