import Mathlib.Data.BitVec
import Mathlib.Data.Fintype.Pi

/-!
# The seqlock under interleaving

The atomic steps of one writer and any number of readers of a `SeqlockBuffer`, in any order: the
steps of `begin_write`, of the stores through the reference it returns, of `commit` and of `read`. A
run is a list of actions, and an action that its thread cannot take leaves the state alone. The
fields of the data are a parameter.
-/

set_option autoImplicit false

namespace VirtualPlc.Runtime.Seqlock

variable {ι F : Type} {V : F → Type}

/-- Names the proof behind the buffer indices `0` and `1`. -/
local instance twoBuffers : NeZero 2 := ⟨by decide⟩

/-- Values of all fields. -/
abbrev Image (V : F → Type) : Type := (f : F) → V f

/-- Shared memory: the sequence number, the two buffers and the index of the published one. -/
structure Memory (V : F → Type) where
  sequence : BitVec 64
  buf : Fin 2 → Image V
  frontIdx : Fin 2

/-- Where the writer is: outside a write, after the first increment, with the reference to a back
buffer, with the old front index of the commit, and after the swap. -/
inductive WriterPhase where
  | idle
  | begun
  | writing (front : Fin 2)
  | committing (oldFront : Fin 2)
  | swapped
deriving DecidableEq

/-- Where a reader is: outside a read, at the start of the loop, with a sequence number, and with
the fields copied so far. -/
inductive ReaderPhase (V : F → Type) where
  | resting
  | looping
  | sequenced (seq1 : BitVec 64)
  | copying (seq1 : BitVec 64) (front : Fin 2) (copy : (f : F) → Option (V f))

/-- A reader. `called` and `attempted` are the numbers of commits when `read` was called and when
its loop last loaded the sequence number; no step looks at them. -/
structure Reader (V : F → Type) where
  phase : ReaderPhase V
  called : Nat
  attempted : Nat

/-- A completed read, with the numbers of commits at its call and at its return. -/
structure Read (ι : Type) (V : F → Type) where
  reader : ι
  image : Image V
  called : Nat
  returned : Nat

/-- Memory and threads, the committed images from the initial one on, and the completed reads. -/
structure State (ι : Type) (V : F → Type) where
  memory : Memory V
  writer : WriterPhase
  reader : ι → Reader V
  history : List (Image V)
  reads : List (Read ι V)

/-- Atomic steps. -/
inductive Action (ι : Type) (V : F → Type) where
  | beginIncrement
  | beginLoadFront
  | store (f : F) (value : V f)
  | commitLoadFront
  | commitStoreFront
  | commitIncrement
  | call (i : ι)
  | readSequence (i : ι)
  | readFront (i : ι)
  | readField (i : ι) (f : F)
  | readAgain (i : ι)

/-- Number of commits so far. -/
def State.commits (s : State ι V) : Nat := s.history.length - 1

section Step

variable [DecidableEq ι] [DecidableEq F] [Fintype F]

namespace Memory

/-- `fetch_add(1)` on the sequence number. -/
def increment (m : Memory V) : Memory V := { m with sequence := m.sequence + 1 }

/-- The half published when the index is `0`. -/
def buf0 (m : Memory V) : Image V := m.buf 0

/-- The half published when the index is `1`. -/
def buf1 (m : Memory V) : Image V := m.buf 1

/-- Stores a field of a buffer. -/
def store (m : Memory V) (index : Fin 2) (f : F) (value : V f) : Memory V :=
  { m with buf := Function.update m.buf index (Function.update (m.buf index) f value) }

end Memory

namespace State

/-- Changes one reader. -/
def setReader (s : State ι V) (i : ι) (r : Reader V) : State ι V :=
  { s with reader := Function.update s.reader i r }

/-- A step of the writer. A commit counts from its last step on. -/
def stepWriter (s : State ι V) : Action ι V → State ι V
  | .beginIncrement =>
    match s.writer with
    | .idle => { s with memory := s.memory.increment, writer := .begun }
    | _ => s
  | .beginLoadFront =>
    match s.writer with
    | .begun => { s with writer := .writing s.memory.frontIdx }
    | _ => s
  | .store f value =>
    match s.writer with
    | .writing front => { s with memory := s.memory.store (1 - front) f value }
    | _ => s
  | .commitLoadFront =>
    match s.writer with
    | .writing _ => { s with writer := .committing s.memory.frontIdx }
    | _ => s
  | .commitStoreFront =>
    match s.writer with
    | .committing oldFront =>
      { s with memory := { s.memory with frontIdx := 1 - oldFront }, writer := .swapped }
    | _ => s
  | .commitIncrement =>
    match s.writer with
    | .swapped =>
      { s with
        memory := s.memory.increment
        writer := .idle
        history := s.history ++ [s.memory.buf s.memory.frontIdx] }
    | _ => s
  | _ => s

/-- The image of a copy that has all fields. -/
def copied (copy : (f : F) → Option (V f)) : Option (Image V) :=
  if h : ∀ f, (copy f).isSome = true then some fun f => (copy f).get (h f) else none

/-- A step of a reader. -/
def stepReader (s : State ι V) : Action ι V → State ι V
  | .call i =>
    match (s.reader i).phase with
    | .resting => s.setReader i ⟨.looping, s.commits, s.commits⟩
    | _ => s
  | .readSequence i =>
    match (s.reader i).phase with
    | .looping =>
      -- an odd number means that a write is in progress
      if s.memory.sequence &&& 1 ≠ 0 then s
      else s.setReader i ⟨.sequenced s.memory.sequence, (s.reader i).called, s.commits⟩
    | _ => s
  | .readFront i =>
    match (s.reader i).phase with
    | .sequenced seq1 =>
      s.setReader i
        { s.reader i with phase := .copying seq1 s.memory.frontIdx fun _ => none }
    | _ => s
  | .readField i f =>
    match (s.reader i).phase with
    | .copying seq1 front copy =>
      s.setReader i
        { s.reader i with
          phase := .copying seq1 front (Function.update copy f (some (s.memory.buf front f))) }
    | _ => s
  | .readAgain i =>
    match (s.reader i).phase with
    | .copying seq1 _ copy =>
      match copied copy with
      | some image =>
        if s.memory.sequence = seq1 then
          { s.setReader i { s.reader i with phase := .resting } with
            reads := s.reads ++ [⟨i, image, (s.reader i).called, s.commits⟩] }
        else s.setReader i { s.reader i with phase := .looping }
      | none => s
    | _ => s
  | _ => s

/-- One step of some thread. -/
def step (s : State ι V) (a : Action ι V) : State ι V := (s.stepWriter a).stepReader a

/-- A buffer whose two halves hold an image, before any thread has started. -/
def start (image : Image V) : State ι V where
  memory := ⟨0, fun _ => image, 0⟩
  writer := .idle
  reader := fun _ => ⟨.resting, 0, 0⟩
  history := [image]
  reads := []

/-- The state after some steps. -/
def run (image : Image V) (actions : List (Action ι V)) : State ι V :=
  actions.foldl step (start image)

end State

end Step

variable {s s' : State ι V}

/-! ## The invariant -/

/-- The sequence number a reader has loaded. -/
def ReaderPhase.stamp : ReaderPhase V → Option (BitVec 64)
  | .resting | .looping => none
  | .sequenced seq1 | .copying seq1 _ _ => some seq1

/-- Fewer than `2 ^ 63` commits happened during the read. -/
def Read.Short (r : Read ι V) : Prop := r.returned < r.called + 2 ^ 63

/-- Two reads of one reader, in this order. -/
def Read.Before (r r' : Read ι V) : Prop := r.reader = r'.reader → r.returned ≤ r'.called

/-- A completed read gives an image that was the newest at some time between its call and its
return. -/
structure Read.Sound (s : State ι V) (r : Read ι V) : Prop where
  called_le : r.called ≤ r.returned
  returned_le : r.returned ≤ s.commits
  image : r.Short → ∃ k, r.called ≤ k ∧ k ≤ r.returned ∧ s.history[k]? = some r.image

/-- What holds of one reader. A copy made since the last commit, with no write in progress, agrees
with the published buffer. -/
structure Reader.Sound (s : State ι V) (r : Reader V) : Prop where
  called_le : r.called ≤ r.attempted
  attempted_le : r.attempted ≤ s.commits
  stamp : ∀ seq1, r.phase.stamp = some seq1 → seq1 = BitVec.ofNat 64 (2 * r.attempted)
  copy : ∀ seq1 front copy, r.phase = .copying seq1 front copy → s.commits = r.attempted →
    s.writer = .idle → front = s.memory.frontIdx ∧
      ∀ f value, copy f = some value → value = s.memory.buf front f

/-- What holds in every state of a run. -/
structure Inv (s : State ι V) : Prop where
  sequence : s.memory.sequence =
    BitVec.ofNat 64 (2 * s.commits + if s.writer = .idle then 0 else 1)
  nonempty : s.history ≠ []
  published : s.writer ≠ .swapped → s.history.getLast? = some (s.memory.buf s.memory.frontIdx)
  loaded : ∀ front, s.writer = .writing front ∨ s.writer = .committing front →
    front = s.memory.frontIdx
  readers : ∀ i, (s.reader i).Sound s
  reads : ∀ r ∈ s.reads, r.Sound s
  ordered : s.reads.Pairwise Read.Before
  pending : ∀ i, (s.reader i).phase ≠ .resting → ∀ r ∈ s.reads, r.reader = i →
    r.returned ≤ (s.reader i).called

/-- Completed reads are about the committed images only. -/
theorem Read.Sound.of_history {r : Read ι V} (hr : r.Sound s) (h : s'.history = s.history) :
    r.Sound s' where
  called_le := hr.called_le
  returned_le := by
    simp only [State.commits, h]
    exact hr.returned_le
  image := by
    rw [h]
    exact hr.image

/-- An even sequence number says that no write is in progress. -/
theorem Inv.idle_of_even (h : Inv s) (heven : s.memory.sequence &&& 1 = 0) : s.writer = .idle := by
  by_contra hbusy
  have hseq := h.sequence
  rw [if_neg hbusy] at hseq
  have hbit : (s.memory.sequence &&& 1).toNat = 0 := by rw [heven]; rfl
  rw [hseq, BitVec.toNat_and, BitVec.toNat_ofNat] at hbit
  have hand : (2 * s.commits + 1) % 2 ^ 64 &&& 1 = (2 * s.commits + 1) % 2 ^ 64 % 2 :=
    Nat.and_one_is_mod _
  have hone : (1 : BitVec 64).toNat = 1 := rfl
  rw [hone, hand] at hbit
  omega

/-- The same sequence number again, fewer than `2 ^ 63` commits later: there was no commit, and no
write is in progress. -/
theorem Inv.unchanged (h : Inv s) {attempted : Nat} (hle : attempted ≤ s.commits)
    (hshort : s.commits < attempted + 2 ^ 63)
    (hseq : s.memory.sequence = BitVec.ofNat 64 (2 * attempted)) :
    s.commits = attempted ∧ s.writer = .idle := by
  have heq := congrArg BitVec.toNat (h.sequence.symm.trans hseq)
  rw [BitVec.toNat_ofNat, BitVec.toNat_ofNat] at heq
  by_cases hidle : s.writer = .idle
  · rw [if_pos hidle] at heq
    exact ⟨by omega, hidle⟩
  · rw [if_neg hidle] at heq
    omega

/-- Adding a completed read of a reader that now rests. -/
theorem Inv.complete (h : Inv s) {read : Read ι V} (hread : read.Sound s)
    (hresting : (s.reader read.reader).phase = .resting)
    (hordered : ∀ earlier ∈ s.reads, earlier.reader = read.reader →
      earlier.returned ≤ read.called) : Inv { s with reads := s.reads ++ [read] } where
  sequence := h.sequence
  nonempty := h.nonempty
  published := h.published
  loaded := h.loaded
  readers := fun i =>
    ⟨(h.readers i).called_le, (h.readers i).attempted_le, (h.readers i).stamp, (h.readers i).copy⟩
  reads := by
    intro r hr
    have hsound : r.Sound s := by
      rcases List.mem_append.mp hr with hold | hnew
      · exact h.reads r hold
      · rw [List.mem_singleton.mp hnew]
        exact hread
    exact hsound.of_history rfl
  ordered := by
    rw [List.pairwise_append]
    refine ⟨h.ordered, List.pairwise_singleton _ _, ?_⟩
    intro earlier hearlier r hr
    rw [List.mem_singleton.mp hr]
    exact hordered earlier hearlier
  pending := by
    intro i hphase r hr hreader
    rcases List.mem_append.mp hr with hold | hnew
    · exact h.pending i hphase r hold hreader
    · have heq := List.mem_singleton.mp hnew
      subst heq
      rw [← hreader] at hphase
      exact absurd hresting hphase

/-- A completed copy, with the sequence number it started with, is the newest image. -/
theorem Inv.copied_sound [Fintype F] (h : Inv s) {i : ι} {front : Fin 2}
    {copy : (f : F) → Option (V f)}
    {image : Image V} (hphase : (s.reader i).phase = .copying s.memory.sequence front copy)
    (hcopied : State.copied copy = some image) :
    Read.Sound s ⟨i, image, (s.reader i).called, s.commits⟩ where
  called_le := (h.readers i).called_le.trans (h.readers i).attempted_le
  returned_le := Nat.le_refl _
  image := by
    intro hshort
    have hr := h.readers i
    have hle : s.commits < (s.reader i).attempted + 2 ^ 63 := by
      have hcalled := hr.called_le
      unfold Read.Short at hshort
      dsimp only at hshort
      omega
    have hstamp := hr.stamp s.memory.sequence (by rw [hphase]; rfl)
    obtain ⟨hcommits, hidle⟩ := h.unchanged hr.attempted_le hle hstamp
    obtain ⟨hfront, hvalues⟩ := hr.copy _ front copy hphase hcommits hidle
    refine ⟨s.commits, hr.called_le.trans hr.attempted_le, Nat.le_refl _, ?_⟩
    have himage : image = s.memory.buf s.memory.frontIdx := by
      unfold State.copied at hcopied
      split at hcopied
      · next hall =>
        cases hcopied
        funext f
        rw [← hfront]
        exact hvalues f _ (Option.some_get (hall f)).symm
      · cases hcopied
    rw [himage, ← h.published (by simp [hidle]), List.getLast?_eq_getElem?]
    rfl

/-- Changing one reader keeps the invariant when the reader stays sound and a call in progress is
not older than the reader's completed reads. -/
theorem Inv.setReader [DecidableEq ι] (h : Inv s) {i : ι} {r : Reader V} (hr : r.Sound s)
    (hpending : r.phase ≠ .resting → ∀ read ∈ s.reads, read.reader = i →
      read.returned ≤ r.called) : Inv (s.setReader i r) where
  sequence := h.sequence
  nonempty := h.nonempty
  published := h.published
  loaded := h.loaded
  readers := by
    intro j
    have hsound : ((s.setReader i r).reader j).Sound s := by
      by_cases hj : j = i
      · subst hj
        simpa [State.setReader] using hr
      · simpa [State.setReader, Function.update_of_ne hj] using h.readers j
    exact ⟨hsound.called_le, hsound.attempted_le, hsound.stamp, hsound.copy⟩
  reads := fun read hread => (h.reads read hread).of_history rfl
  ordered := h.ordered
  pending := by
    intro j hphase read hread hreader
    by_cases hj : j = i
    · subst hj
      simp only [State.setReader, Function.update_self] at hphase ⊢
      exact hpending hphase read hread hreader
    · simp only [State.setReader, Function.update_of_ne hj] at hphase ⊢
      exact h.pending j hphase read hread hreader

/-- Every completed short read returns one committed image in full, the newest at some moment of the
read, and a reader's reads never go back to an older one. -/
theorem Inv.commit_of_read (h : Inv s) :
    ∃ commit : Nat → Nat,
      (∀ (p : Nat) (read : Read ι V), s.reads[p]? = some read → read.Short →
        read.called ≤ commit p ∧ commit p ≤ read.returned ∧
          s.history[commit p]? = some read.image) ∧
      ∀ (p q : Nat) (first second : Read ι V), p ≤ q → s.reads[p]? = some first →
        s.reads[q]? = some second → first.reader = second.reader → first.Short → second.Short →
          commit p ≤ commit q := by
  have hread : ∀ p : Nat, ∃ k, ∀ read : Read ι V, s.reads[p]? = some read → read.Short →
      read.called ≤ k ∧ k ≤ read.returned ∧ s.history[k]? = some read.image := by
    intro p
    by_cases hp : ∃ read, s.reads[p]? = some read ∧ read.Short
    · obtain ⟨read, hsome, hshort⟩ := hp
      obtain ⟨k, hk⟩ := (h.reads read (List.mem_of_getElem? hsome)).image hshort
      refine ⟨k, ?_⟩
      intro read' hsome' _
      rw [hsome] at hsome'
      cases hsome'
      exact hk
    · exact ⟨0, fun read hsome hshort => absurd ⟨read, hsome, hshort⟩ hp⟩
  choose commit hcommit using hread
  refine ⟨commit, hcommit, ?_⟩
  intro p q first second hle hfirst hsecond hreader hshort hshort'
  rcases Nat.lt_or_eq_of_le hle with hlt | heq
  · obtain ⟨_, hreturned, _⟩ := hcommit p first hfirst hshort
    obtain ⟨hcalled, _, _⟩ := hcommit q second hsecond hshort'
    have hbefore : first.Before second := by
      obtain ⟨hp, rfl⟩ := List.getElem?_eq_some_iff.mp hfirst
      obtain ⟨hq, rfl⟩ := List.getElem?_eq_some_iff.mp hsecond
      exact List.pairwise_iff_getElem.mp h.ordered p q hp hq hlt
    have hordered := hbefore hreader
    omega
  · rw [heq]

/-! ## Steps of the writer -/

/-- A step of the writer from `s` to `s'`. While the writer is outside a write and no commit has
happened, it has not touched the memory. -/
structure Writes (s s' : State ι V) : Prop where
  reader : s'.reader = s.reader
  reads : s'.reads = s.reads
  history : s'.history = s.history ∨ ∃ image, s'.history = s.history ++ [image]
  idle : s'.writer = .idle → s.commits < s'.commits

theorem Writes.commits_le (h : Writes s s') : s.commits ≤ s'.commits := by
  rcases h.history with heq | ⟨image, heq⟩
  · simp [State.commits, heq]
  · simp [State.commits, heq]

theorem Writes.readSound (h : Writes s s') {r : Read ι V} (hr : r.Sound s) : r.Sound s' where
  called_le := hr.called_le
  returned_le := hr.returned_le.trans h.commits_le
  image := by
    intro hshort
    obtain ⟨k, hle, hge, hk⟩ := hr.image hshort
    refine ⟨k, hle, hge, ?_⟩
    rcases h.history with heq | ⟨image, heq⟩
    · rw [heq, hk]
    · have hlt : k < s.history.length := (List.getElem?_eq_some_iff.mp hk).1
      rw [heq, List.getElem?_append_left hlt, hk]

theorem Writes.readerSound (h : Writes s s') {r : Reader V} (hr : r.Sound s) : r.Sound s' where
  called_le := hr.called_le
  attempted_le := hr.attempted_le.trans h.commits_le
  stamp := hr.stamp
  copy := by
    intro seq1 front copy _ hcommits hidle
    have hlt := h.idle hidle
    have hle := hr.attempted_le
    omega

/-- A step of the writer keeps what is known about reads and readers. -/
theorem Inv.write (hs : Inv s) (h : Writes s s')
    (hsequence : s'.memory.sequence =
      BitVec.ofNat 64 (2 * s'.commits + if s'.writer = .idle then 0 else 1))
    (hpublished : s'.writer ≠ .swapped →
      s'.history.getLast? = some (s'.memory.buf s'.memory.frontIdx))
    (hloaded : ∀ front, s'.writer = .writing front ∨ s'.writer = .committing front →
      front = s'.memory.frontIdx) : Inv s' where
  sequence := hsequence
  nonempty := by
    rcases h.history with heq | ⟨image, heq⟩
    · rw [heq]
      exact hs.nonempty
    · simp [heq]
  published := hpublished
  loaded := hloaded
  readers := by
    intro i
    rw [h.reader]
    exact h.readerSound (hs.readers i)
  reads := by
    rw [h.reads]
    exact fun r hr => h.readSound (hs.reads r hr)
  ordered := h.reads ▸ hs.ordered
  pending := by
    rw [h.reader, h.reads]
    exact hs.pending

variable [DecidableEq F]

theorem Inv.stepWriter (h : Inv s) (a : Action ι V) : Inv (s.stepWriter a) := by
  have hseq := h.sequence
  have hpub := h.published
  have hloaded := h.loaded
  cases a with
  | beginIncrement =>
    unfold State.stepWriter
    dsimp only
    split
    · next hw =>
      rw [hw] at hseq hpub
      refine h.write ⟨rfl, rfl, .inl rfl, by simp⟩ ?_ ?_ (by simp)
      · simp only [if_true] at hseq
        simp [Memory.increment, State.commits, hseq, BitVec.ofNat_add]
      · exact fun _ => hpub (by simp)
    · exact h
  | beginLoadFront =>
    unfold State.stepWriter
    dsimp only
    split
    · next hw =>
      rw [hw] at hseq hpub
      refine h.write ⟨rfl, rfl, .inl rfl, by simp⟩ ?_ ?_ (by simp)
      · simpa [State.commits] using hseq
      · exact fun _ => hpub (by simp)
    · exact h
  | store f value =>
    unfold State.stepWriter
    dsimp only
    split
    · next front hw =>
      have hfront : front = s.memory.frontIdx := hloaded front (.inl hw)
      rw [hw] at hseq hpub
      refine h.write ⟨rfl, rfl, .inl rfl, by simp [hw]⟩ ?_ ?_ ?_
      · simpa [State.commits, hw, Memory.store] using hseq
      · intro _
        -- the store goes to the other half
        have hother : s.memory.frontIdx ≠ 1 - front := by
          rw [hfront]
          generalize s.memory.frontIdx = x
          revert x
          decide
        simpa [Memory.store, Function.update_of_ne hother] using hpub (by simp)
      · simpa [Memory.store] using hloaded
    · exact h
  | commitLoadFront =>
    unfold State.stepWriter
    dsimp only
    split
    · next front hw =>
      rw [hw] at hseq hpub
      refine h.write ⟨rfl, rfl, .inl rfl, by simp⟩ ?_ ?_ (by simp)
      · simpa [State.commits] using hseq
      · exact fun _ => hpub (by simp)
    · exact h
  | commitStoreFront =>
    unfold State.stepWriter
    dsimp only
    split
    · next oldFront hw =>
      rw [hw] at hseq
      refine h.write ⟨rfl, rfl, .inl rfl, by simp⟩ ?_ (by simp) (by simp)
      simpa [State.commits] using hseq
    · exact h
  | commitIncrement =>
    unfold State.stepWriter
    dsimp only
    split
    · next hw =>
      -- the commit counts from here on, and makes the number even again
      have hlen : 0 < s.history.length := List.length_pos_of_ne_nil h.nonempty
      rw [hw] at hseq
      refine h.write ⟨rfl, rfl, .inr ⟨_, rfl⟩, ?_⟩ ?_ (by simp [Memory.increment]) (by simp)
      · intro _
        simp [State.commits]
        omega
      · have hsum : 2 * s.commits + 1 + 1 = 2 * (s.commits + 1) := by omega
        have hcommits : s.history.length + 1 - 1 = s.commits + 1 := by
          unfold State.commits
          omega
        simp only [reduceCtorEq, if_false] at hseq
        simp only [State.commits, List.length_append, List.length_singleton, if_true,
          Nat.add_zero]
        rw [hcommits, ← hsum]
        calc s.memory.sequence + 1
            = BitVec.ofNat 64 (2 * s.commits + 1) + BitVec.ofNat 64 1 := by rw [hseq]; rfl
          _ = BitVec.ofNat 64 (2 * s.commits + 1 + 1) := (BitVec.ofNat_add _ _).symm
    · exact h
  | call i | readSequence i | readFront i | readField i f | readAgain i => exact h

/-! ## Steps of a reader -/

variable [DecidableEq ι] [Fintype F]

theorem Inv.stepReader (h : Inv s) (a : Action ι V) : Inv (s.stepReader a) := by
  cases a with
  | call i =>
    unfold State.stepReader
    dsimp only
    split
    · refine h.setReader ⟨Nat.le_refl _, Nat.le_refl _, by simp [ReaderPhase.stamp], by simp⟩ ?_
      intro _ read hread _
      exact (h.reads read hread).returned_le
    · exact h
  | readSequence i =>
    unfold State.stepReader
    dsimp only
    split
    · next hphase =>
      split
      · exact h
      · next heven =>
        -- an even number says that no write is under way
        have hidle := h.idle_of_even (not_not.mp heven)
        refine h.setReader ⟨?_, Nat.le_refl _, ?_, by simp⟩ ?_
        · exact (h.readers i).called_le.trans (h.readers i).attempted_le
        · intro seq1 hseq1
          have hseq := h.sequence
          rw [if_pos hidle] at hseq
          cases hseq1
          exact hseq
        · intro _
          exact h.pending i (by simp [hphase])
    · exact h
  | readFront i =>
    unfold State.stepReader
    dsimp only
    split
    · next seq1 hphase =>
      have hr := h.readers i
      refine h.setReader ⟨hr.called_le, hr.attempted_le, ?_, ?_⟩ ?_
      · intro seq hseq
        exact hr.stamp seq (by rw [hphase]; exact hseq)
      · intro seq front copy hcopy _ _
        cases hcopy
        exact ⟨rfl, by simp⟩
      · intro _
        exact h.pending i (by simp [hphase])
    · exact h
  | readField i f =>
    unfold State.stepReader
    dsimp only
    split
    · next seq1 front copy hphase =>
      have hr := h.readers i
      refine h.setReader ⟨hr.called_le, hr.attempted_le, ?_, ?_⟩ ?_
      · intro seq hseq
        exact hr.stamp seq (by rw [hphase]; exact hseq)
      · intro seq front' copy' hcopy hcommits hidle
        cases hcopy
        obtain ⟨hfront, hvalues⟩ := hr.copy _ _ _ hphase hcommits hidle
        refine ⟨hfront, ?_⟩
        intro g value hvalue
        -- the field just read, or one read before
        by_cases hg : g = f
        · subst hg
          rw [Function.update_self] at hvalue
          exact (Option.some.inj hvalue).symm
        · rw [Function.update_of_ne hg] at hvalue
          exact hvalues g value hvalue
      · intro _
        exact h.pending i (by simp [hphase])
    · exact h
  | readAgain i =>
    unfold State.stepReader
    dsimp only
    split
    · next seq1 front copy hphase =>
      have hr := h.readers i
      have hrest : Inv (s.setReader i { s.reader i with phase := .resting }) :=
        h.setReader ⟨hr.called_le, hr.attempted_le, by simp [ReaderPhase.stamp], by simp⟩ (by simp)
      split
      · next image hcopied =>
        split
        · next hseq =>
          -- the number has not changed since, so the copy is one of the images
          subst hseq
          exact hrest.complete ((h.copied_sound hphase hcopied).of_history rfl)
            (by simp [State.setReader])
            fun read hread hreader => h.pending i (by simp [hphase]) read hread hreader
        · refine h.setReader ⟨hr.called_le, hr.attempted_le, by simp [ReaderPhase.stamp],
            by simp⟩ ?_
          intro _
          exact h.pending i (by simp [hphase])
      · exact h
    · exact h
  | beginIncrement | beginLoadFront | store f value | commitLoadFront | commitStoreFront
    | commitIncrement => exact h

theorem Inv.step (h : Inv s) (a : Action ι V) : Inv (s.step a) := (h.stepWriter a).stepReader a

omit [DecidableEq ι] [DecidableEq F] [Fintype F] in
theorem inv_start (image : Image V) : Inv (State.start image : State ι V) where
  sequence := rfl
  nonempty := by simp [State.start]
  published := fun _ => rfl
  loaded := by simp [State.start]
  readers := fun _ => ⟨Nat.le_refl _, Nat.le_refl _, by simp [State.start, ReaderPhase.stamp],
    by simp [State.start]⟩
  reads := by simp [State.start]
  ordered := List.Pairwise.nil
  pending := by simp [State.start]

theorem inv_run (image : Image V) (actions : List (Action ι V)) :
    Inv (State.run image actions) := by
  induction actions using List.reverseRecOn with
  | nil => exact inv_start image
  | append_singleton actions a ih =>
    rw [State.run, List.foldl_append]
    exact ih.step a

/-! ## Uninterrupted calls -/

/-- The steps of `write` for a function that makes these stores. -/
def writeActions (ι : Type) (stores : List (Sigma V)) : List (Action ι V) :=
  [.beginIncrement, .beginLoadFront] ++ stores.map (fun st => .store st.1 st.2) ++
    [.commitLoadFront, .commitStoreFront, .commitIncrement]

/-- The steps of a `read` that copies these fields. -/
def readActions (V : F → Type) (i : ι) (fields : List F) : List (Action ι V) :=
  [.call i, .readSequence i, .readFront i] ++ fields.map (.readField i ·) ++ [.readAgain i]

/-- Stores in order. -/
def applyStores (stores : List (Sigma V)) (image : Image V) : Image V :=
  stores.foldl (fun image st => Function.update image st.1 st.2) image

theorem stores_uninterrupted {front : Fin 2} (hwriter : s.writer = .writing front)
    (stores : List (Sigma V)) :
    (stores.map fun st => Action.store st.1 st.2).foldl State.step s =
      { s with memory := { s.memory with
          buf := Function.update s.memory.buf (1 - front)
            (applyStores stores (s.memory.buf (1 - front))) } } := by
  induction stores generalizing s with
  | nil => simp [applyStores]
  | cons st rest ih =>
    have hstep : s.step (.store st.1 st.2) =
        { s with memory := s.memory.store (1 - front) st.1 st.2 } := by
      simp [State.step, State.stepWriter, State.stepReader, hwriter]
    rw [List.map_cons, List.foldl_cons, hstep, ih (by simpa using hwriter)]
    simp [Memory.store, applyStores]

/-- A whole write: the stores go to the back buffer, which becomes the front one. -/
theorem write_uninterrupted (hidle : s.writer = .idle) (stores : List (Sigma V)) :
    let image := applyStores stores (s.memory.buf (1 - s.memory.frontIdx))
    (writeActions ι stores).foldl State.step s =
      { s with
        memory := ⟨s.memory.sequence + 1 + 1,
          Function.update s.memory.buf (1 - s.memory.frontIdx) image, 1 - s.memory.frontIdx⟩
        history := s.history ++ [image] } := by
  have hbegin : (s.step .beginIncrement).step .beginLoadFront =
      { s with memory := s.memory.increment, writer := .writing s.memory.frontIdx } := by
    simp [State.step, State.stepWriter, State.stepReader, hidle, Memory.increment]
  simp only [writeActions, List.foldl_append, List.foldl_cons, List.foldl_nil, hbegin]
  rw [stores_uninterrupted rfl]
  simp [State.step, State.stepWriter, State.stepReader, Memory.increment, hidle]

theorem fields_uninterrupted {i : ι} {seq1 : BitVec 64} {front : Fin 2}
    {copy : (f : F) → Option (V f)} (hphase : (s.reader i).phase = .copying seq1 front copy)
    (fields : List F) :
    (fields.map (Action.readField i ·)).foldl State.step s =
      s.setReader i { s.reader i with
        phase := .copying seq1 front fun f =>
          if f ∈ fields then some (s.memory.buf front f) else copy f } := by
  induction fields generalizing s copy with
  | nil =>
    simp only [List.map_nil, List.foldl_nil, List.not_mem_nil, if_false, State.setReader, ← hphase,
      Function.update_eq_self]
  | cons f rest ih =>
    have hstep : s.step (.readField i f) = s.setReader i { s.reader i with
        phase := .copying seq1 front
          (Function.update copy f (some (s.memory.buf front f))) } := by
      simp [State.step, State.stepWriter, State.stepReader, hphase]
    have hcopying : ((s.step (.readField i f)).reader i).phase = .copying seq1 front
        (Function.update copy f (some (s.memory.buf front f))) := by
      rw [hstep]
      simp [State.setReader]
    have hcopy : (fun g => if g ∈ rest then some (s.memory.buf front g)
          else Function.update copy f (some (s.memory.buf front f)) g) =
        fun g => if g ∈ f :: rest then some (s.memory.buf front g) else copy g := by
      funext g
      by_cases hg : g = f
      · subst hg
        simp
      · simp [hg]
    rw [List.map_cons, List.foldl_cons, ih hcopying, hstep]
    simp only [State.setReader, Function.update_self, Function.update_idem, hcopy]

/-- A whole read with no write in progress gives the published image at the first attempt. -/
theorem read_uninterrupted (h : Inv s) {i : ι} (hidle : s.writer = .idle)
    (hresting : (s.reader i).phase = .resting) {fields : List F} (hall : ∀ f, f ∈ fields) :
    ((readActions V i fields).foldl State.step s).reads =
      s.reads ++ [⟨i, s.memory.buf s.memory.frontIdx, s.commits, s.commits⟩] := by
  have heven : s.memory.sequence &&& 1#64 = 0#64 := by
    have hseq := h.sequence
    rw [if_pos hidle] at hseq
    apply BitVec.eq_of_toNat_eq
    rw [hseq, BitVec.toNat_and, BitVec.toNat_ofNat, BitVec.toNat_ofNat, Nat.and_one_is_mod]
    simp
  have hstart : ((s.step (.call i)).step (.readSequence i)).step (.readFront i) =
      s.setReader i ⟨.copying s.memory.sequence s.memory.frontIdx fun _ => none,
        s.commits, s.commits⟩ := by
    simp [State.step, State.stepWriter, State.stepReader, State.setReader, hresting, heven,
      State.commits]
  have hcopying : (((s.setReader i ⟨.copying s.memory.sequence s.memory.frontIdx fun _ => none,
      s.commits, s.commits⟩).reader i).phase) =
        .copying s.memory.sequence s.memory.frontIdx fun _ => none := by
    simp [State.setReader]
  simp only [readActions, List.foldl_append, List.foldl_cons, List.foldl_nil, hstart]
  rw [fields_uninterrupted hcopying]
  simp [State.step, State.stepWriter, State.stepReader, State.setReader, State.copied, hall,
    State.commits]

end VirtualPlc.Runtime.Seqlock
