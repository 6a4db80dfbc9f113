import VirtualPlc.Control.Reading
import VirtualPlc.Word.Checked

/-!
# The standard timers

`Ton`, `Tof` and `Tp` as their `call` computes them; times are `i64` nanoseconds. A timer keeps its
elapsed time between calls while the preset may change from call to call. A pulse clamps the time it
keeps in every call (`Tp.Rested.call`). The on-delay and the off-delay each have a branch that
leaves it alone, and go out of bounds exactly where that branch meets a preset below it
(`elapsed_iff`).
-/

set_option autoImplicit false

namespace VirtualPlc.Stdlib

open VirtualPlc.Word VirtualPlc.Control

/-- Arguments of one scan cycle. -/
structure Scan where
  input : Bool
  pt : Int
  deltaT : Int
deriving DecidableEq, Repr

/-- The elapsed time that a call shows lies between zero and its preset. -/
def Scan.InBounds (scan : Scan) (shown : Bool × Int) : Prop :=
  0 ≤ shown.2 ∧ shown.2 ≤ max scan.pt 0

instance (scan : Scan) (shown : Bool × Int) : Decidable (scan.InBounds shown) :=
  inferInstanceAs (Decidable (_ ∧ _))

/-- Timer On-Delay. -/
structure Ton where
  q : Bool
  et : Int
  prevIn : Bool
deriving DecidableEq, Repr

/-- Timer Off-Delay. -/
structure Tof where
  q : Bool
  et : Int
  prevIn : Bool
  running : Bool
deriving DecidableEq, Repr

/-- Timer Pulse. -/
structure Tp where
  q : Bool
  et : Int
  prevIn : Bool
  running : Bool
deriving DecidableEq, Repr

namespace Ton

def new : Ton := ⟨false, 0, false⟩

/-- What a call returns. -/
def shown (t : Ton) : Bool × Int := (t.q, t.et)

/-- One scan cycle. -/
def call (t : Ton) (scan : Scan) : Ton :=
  let pt := max scan.pt 0
  let deltaT := max scan.deltaT 0
  let t : Ton :=
    if scan.input then
      let et := if t.et < pt then min (i64SaturatingAdd t.et deltaT) pt else t.et
      { t with et := et, q := decide (pt ≤ et) }
    else { t with q := false, et := 0 }
  { t with prevIn := scan.input }

/-- The time kept from the call before is not above the preset when the input is on. -/
def Fits (t : Ton) (scan : Scan) : Prop := scan.input = true → t.et ≤ max scan.pt 0

theorem et_call_off {t : Ton} {scan : Scan} (hoff : scan.input = false) : (t.call scan).et = 0 := by
  simp [call, hoff]

theorem et_call_on {t : Ton} {scan : Scan} (hon : scan.input = true) :
    (t.call scan).et = if t.et < max scan.pt 0 then
      min (i64SaturatingAdd t.et (max scan.deltaT 0)) (max scan.pt 0) else t.et := by
  simp [call, hon]

theorem et_call_nonneg {t : Ton} (scan : Scan) (h : 0 ≤ t.et) : 0 ≤ (t.call scan).et := by
  cases hin : scan.input with
  | false => exact (et_call_off hin).ge
  | true =>
    have hsum := i64SaturatingAdd_nonneg h (le_max_right scan.deltaT 0)
    rw [et_call_on hin]
    split
    · exact le_min hsum (le_max_right scan.pt 0)
    · exact h

theorem inBounds_iff {t : Ton} (scan : Scan) (h : 0 ≤ t.et) :
    scan.InBounds (t.call scan).shown ↔ t.Fits scan := by
  have hpt := le_max_right scan.pt 0
  have hnonneg := et_call_nonneg scan h
  rw [Scan.InBounds, shown, Fits]
  cases hin : scan.input with
  | false => simp [et_call_off hin]
  | true =>
    rw [et_call_on hin] at hnonneg ⊢
    by_cases hlt : t.et < max scan.pt 0
    · rw [if_pos hlt] at hnonneg ⊢
      exact iff_of_true ⟨hnonneg, min_le_right _ _⟩ fun _ => hlt.le
    · -- the time is left as it is, and in bounds only if it is the preset itself
      rw [if_neg hlt]
      exact ⟨fun hb _ => hb.2, fun hfits => ⟨h, hfits rfl⟩⟩

end Ton

namespace Tof

def new : Tof := ⟨false, 0, false, false⟩

/-- What a call returns. -/
def shown (t : Tof) : Bool × Int := (t.q, t.et)

/-- One scan cycle. -/
def call (t : Tof) (scan : Scan) : Tof :=
  let pt := max scan.pt 0
  let deltaT := max scan.deltaT 0
  let t : Tof :=
    if scan.input then { t with q := true, et := 0, running := false }
    else if t.prevIn && !scan.input then
      let et := min deltaT pt
      { t with running := true, et := et, q := decide (et < pt) }
    else if t.running then
      let et := min (i64SaturatingAdd t.et deltaT) pt
      if pt ≤ et then { t with et := et, q := false, running := false } else { t with et := et }
    else t
  { t with prevIn := scan.input }

/-- The timer has run down and the input stays off. -/
def Expired (t : Tof) (scan : Scan) : Prop :=
  scan.input = false ∧ t.prevIn = false ∧ t.running = false

/-- The time kept by a timer that has run down is not above the preset. -/
def Fits (t : Tof) (scan : Scan) : Prop := t.Expired scan → t.et ≤ max scan.pt 0

theorem et_call_expired {t : Tof} {scan : Scan} (h : t.Expired scan) :
    (t.call scan).et = t.et := by
  obtain ⟨hin, hprev, hrun⟩ := h
  simp [call, hin, hprev, hrun]

theorem inBounds_of_not_expired {t : Tof} {scan : Scan} (h : 0 ≤ t.et) (hlive : ¬ t.Expired scan) :
    scan.InBounds (t.call scan).shown := by
  have hpt := le_max_right scan.pt 0
  have hdelta := le_max_right scan.deltaT 0
  have hsum := i64SaturatingAdd_nonneg h hdelta
  rw [Scan.InBounds, shown, call]
  cases hin : scan.input with
  | true => simp
  | false =>
    cases hprev : t.prevIn with
    | true => exact ⟨le_min hdelta hpt, min_le_right _ _⟩
    | false =>
      cases hrun : t.running with
      | true =>
        simp only [Bool.false_eq_true, ↓reduceIte, Bool.false_and]
        split <;> exact ⟨le_min hsum hpt, min_le_right _ _⟩
      | false => exact absurd ⟨hin, hprev, hrun⟩ hlive

theorem et_call_nonneg {t : Tof} (scan : Scan) (h : 0 ≤ t.et) : 0 ≤ (t.call scan).et := by
  by_cases hexpired : t.Expired scan
  · rw [et_call_expired hexpired]
    exact h
  · exact (inBounds_of_not_expired h hexpired).1

theorem inBounds_iff {t : Tof} (scan : Scan) (h : 0 ≤ t.et) :
    scan.InBounds (t.call scan).shown ↔ t.Fits scan := by
  by_cases hexpired : t.Expired scan
  · rw [Scan.InBounds, shown, et_call_expired hexpired]
    exact ⟨fun hb _ => hb.2, fun hfits => ⟨h, hfits hexpired⟩⟩
  · exact iff_of_true (inBounds_of_not_expired h hexpired) (absurd · hexpired)

end Tof

namespace Tp

def new : Tp := ⟨false, 0, false, false⟩

/-- What a call returns. -/
def shown (t : Tp) : Bool × Int := (t.q, t.et)

/-- A rising edge starts a pulse unless one is running. -/
def startPulse (t : Tp) (scan : Scan) : Tp :=
  if scan.input && !t.prevIn && !t.running then { t with running := true, q := true, et := 0 }
  else t

/-- One scan cycle. -/
def call (t : Tp) (scan : Scan) : Tp :=
  let pt := max scan.pt 0
  let deltaT := max scan.deltaT 0
  let t := t.startPulse scan
  let t : Tp :=
    if t.running then
      let et := min (i64SaturatingAdd t.et deltaT) pt
      if pt ≤ et then { t with q := false, running := false, et := 0 } else { t with et := et }
    else t
  { t with prevIn := scan.input }

/-- Between pulses no time is kept. -/
def Rested (t : Tp) : Prop := 0 ≤ t.et ∧ (t.running = false → t.et = 0)

theorem rested_new : new.Rested := ⟨le_refl 0, fun _ => rfl⟩

theorem Rested.startPulse {t : Tp} (h : t.Rested) (scan : Scan) : (t.startPulse scan).Rested := by
  rw [Tp.startPulse]
  split
  · exact ⟨le_refl 0, fun _ => rfl⟩
  · exact h

/-- A call clamps a running pulse to its preset and clears a finished one. -/
theorem Rested.call {t : Tp} (h : t.Rested) (scan : Scan) :
    (t.call scan).Rested ∧ scan.InBounds (t.call scan).shown := by
  have hpt := le_max_right scan.pt 0
  obtain ⟨hnonneg, hidle⟩ := h.startPulse scan
  have hsum := i64SaturatingAdd_nonneg hnonneg (le_max_right scan.deltaT 0)
  rw [Scan.InBounds, shown, Tp.call]
  cases hrun : (t.startPulse scan).running with
  | false =>
    have het := hidle hrun
    simp [Rested, hrun, het]
  | true =>
    simp only [↓reduceIte]
    split
    · simp [Rested]
    · have hshown := le_min hsum hpt
      exact ⟨⟨hshown, fun hstop => absurd hstop (by simp)⟩, hshown, min_le_right _ _⟩

end Tp

/-- Every sequence of calls keeps the elapsed time in bounds exactly as long as the branch that
leaves the time alone meets no smaller preset: of an on-delay with its input on, and of an off-delay
that has run down. A pulse is always in bounds. -/
theorem elapsed_iff (scans : List Scan) :
    (Passes Ton.call (fun t scan => scan.InBounds (t.call scan).shown) Ton.new scans ↔
      Passes Ton.call Ton.Fits Ton.new scans) ∧
    (Passes Tof.call (fun t scan => scan.InBounds (t.call scan).shown) Tof.new scans ↔
      Passes Tof.call Tof.Fits Tof.new scans) ∧
    Passes Tp.call (fun t scan => scan.InBounds (t.call scan).shown) Tp.new scans := by
  refine ⟨?_, ?_, ?_⟩
  · exact passes_congr (le_refl (0 : Int)) (fun _ scan => Ton.et_call_nonneg scan)
      (fun _ scan => Ton.inBounds_iff scan)
  · exact passes_congr (le_refl (0 : Int)) (fun _ scan => Tof.et_call_nonneg scan)
      (fun _ scan => Tof.inBounds_iff scan)
  · exact passes_of_inv Tp.rested_new (fun _ scan h => (h.call scan).1)
      fun _ scan h => (h.call scan).2

/-- Presets that shrink: an on-delay whose input stays on, and an off-delay that has run down, keep
showing the time of the old preset. -/
theorem elapsed_above_shrunk_preset :
    ¬ Passes Ton.call (fun t scan => scan.InBounds (t.call scan).shown) Ton.new
        [⟨true, 1000, 600⟩, ⟨true, 500, 0⟩] ∧
      ¬ Passes Tof.call (fun t scan => scan.InBounds (t.call scan).shown) Tof.new
        [⟨true, 1000, 0⟩, ⟨false, 1000, 400⟩, ⟨false, 1000, 600⟩, ⟨false, 500, 0⟩] := by
  refine ⟨fun h => ?_, fun h => ?_⟩
  · have hlast := h [⟨true, 1000, 600⟩] ⟨true, 500, 0⟩ [] rfl
    revert hlast
    decide
  · have hlast := h [⟨true, 1000, 0⟩, ⟨false, 1000, 400⟩, ⟨false, 1000, 600⟩] ⟨false, 500, 0⟩ [] rfl
    revert hlast
    decide

end VirtualPlc.Stdlib
