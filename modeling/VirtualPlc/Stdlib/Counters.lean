import VirtualPlc.Control.Stopwatch
import VirtualPlc.Word.Checked

/-!
# The standard counters

`Ctu`, `Ctd` and `Ctud` as their `call` computes them; counts are `i32` values. A counter up is a
stopwatch of the edges that an edge detector finds (`Ctu.count_law`). A counter in both directions
does what the other two do (`ctud_refines`). Edges in both directions cancel except at the largest
count, where the one up is not counted (`Ctud.simultaneous_iff`).
-/

set_option autoImplicit false

namespace VirtualPlc.Stdlib

open VirtualPlc.Word VirtualPlc.Control

/-- Rising edge trigger. -/
structure RTrig where
  prevClk : Bool
deriving DecidableEq, Repr

namespace RTrig

def new : RTrig := ⟨false⟩

/-- One scan cycle: the output, and the trigger after it. -/
def call (t : RTrig) (clk : Bool) : Bool × RTrig := (clk && !t.prevClk, ⟨clk⟩)

/-- What a trigger outputs. -/
def outputs : RTrig → List Bool → List Bool
  | _, [] => []
  | t, clk :: rest => (t.call clk).1 :: outputs (t.call clk).2 rest

/-- A trigger after some calls. -/
def after (t : RTrig) (clks : List Bool) : RTrig := clks.foldl (fun t clk => (t.call clk).2) t

theorem length_outputs (t : RTrig) (clks : List Bool) : (t.outputs clks).length = clks.length := by
  induction clks generalizing t with
  | nil => rfl
  | cons clk rest ih => rw [outputs, List.length_cons, List.length_cons, ih]

theorem outputs_concat (t : RTrig) (clks : List Bool) (clk : Bool) :
    t.outputs (clks ++ [clk]) = t.outputs clks ++ [((t.after clks).call clk).1] := by
  induction clks generalizing t with
  | nil => rfl
  | cons first rest ih =>
    rw [List.cons_append, outputs, outputs, ih]
    rfl

end RTrig

/-- `if clk && !prev && cv < i32::MAX { cv += 1 }`. -/
def countUp (clk prev : Bool) (cv : Int) : Int :=
  if clk && !prev && decide (cv < i32Max) then cv + 1 else cv

/-- `if clk && !prev && cv > i32::MIN { cv -= 1 }`. -/
def countDown (clk prev : Bool) (cv : Int) : Int :=
  if clk && !prev && decide (i32Min < cv) then cv - 1 else cv

/-- Counter Up. -/
structure Ctu where
  cv : Int
  q : Bool
  prevCu : Bool
deriving DecidableEq, Repr

/-- Arguments of a counter up. -/
structure CtuCall where
  cu : Bool
  r : Bool
  pv : Int
deriving DecidableEq, Repr

/-- Counter Down. -/
structure Ctd where
  cv : Int
  q : Bool
  prevCd : Bool
deriving DecidableEq, Repr

/-- Arguments of a counter down. -/
structure CtdCall where
  cd : Bool
  ld : Bool
  pv : Int
deriving DecidableEq, Repr

/-- Counter Up/Down. -/
structure Ctud where
  cv : Int
  qu : Bool
  qd : Bool
  prevCu : Bool
  prevCd : Bool
deriving DecidableEq, Repr

/-- Arguments of a counter up/down. -/
structure CtudCall where
  cu : Bool
  cd : Bool
  r : Bool
  ld : Bool
  pv : Int
deriving DecidableEq, Repr

namespace Ctu

def new : Ctu := ⟨0, false, false⟩

/-- One scan cycle. -/
def call (t : Ctu) (c : CtuCall) : Ctu :=
  let cv := if c.r then 0 else countUp c.cu t.prevCu t.cv
  ⟨cv, decide (c.pv ≤ cv), c.cu⟩

/-- A new counter after some calls. -/
def run (calls : List CtuCall) : Ctu := calls.foldl call new

end Ctu

namespace Ctd

def new : Ctd := ⟨0, false, false⟩

/-- One scan cycle. -/
def call (t : Ctd) (c : CtdCall) : Ctd :=
  let cv := if c.ld then c.pv else countDown c.cd t.prevCd t.cv
  ⟨cv, decide (cv ≤ 0), c.cd⟩

/-- A new counter after some calls. -/
def run (calls : List CtdCall) : Ctd := calls.foldl call new

end Ctd

namespace Ctud

def new : Ctud := ⟨0, false, false, false, false⟩

/-- One scan cycle. -/
def call (t : Ctud) (c : CtudCall) : Ctud :=
  let cv :=
    if c.r then 0
    else if c.ld then c.pv
    else countDown c.cd t.prevCd (countUp c.cu t.prevCu t.cv)
  ⟨cv, decide (c.pv ≤ cv), decide (cv ≤ 0), c.cu, c.cd⟩

/-- A new counter after some calls. -/
def run (calls : List CtudCall) : Ctud := calls.foldl call new

end Ctud

/-! ## The counter up counts edges -/

/-- A count within range goes on like a stopwatch. -/
theorem countUp_eq_min {cv : Int} (h : cv ≤ i32Max) (clk prev : Bool) :
    countUp clk prev cv = min i32Max (cv + if clk && !prev then 1 else 0) := by
  rw [countUp]
  cases clk && !prev with
  | false =>
    simp [h]
  | true =>
    simp only [Bool.true_and, decide_eq_true_eq, if_true]
    split <;> omega

theorem inI32_zero : InI32 0 := ⟨by decide, by decide⟩

theorem inI32_countUp {cv : Int} (h : InI32 cv) (clk prev : Bool) :
    InI32 (countUp clk prev cv) := by
  obtain ⟨hmin, hmax⟩ := h
  rw [countUp_eq_min hmax, InI32]
  split <;> omega

theorem inI32_countDown {cv : Int} (h : InI32 cv) (clk prev : Bool) :
    InI32 (countDown clk prev cv) := by
  obtain ⟨hmin, hmax⟩ := h
  rw [countDown, InI32]
  split
  · next hedge =>
    simp only [Bool.and_eq_true, decide_eq_true_eq] at hedge
    omega
  · exact ⟨hmin, hmax⟩

namespace Ctu

/-- The calls with what a new edge trigger outputs when it is fed their inputs. -/
def triggered (calls : List CtuCall) : List (CtuCall × Bool) :=
  calls.zip (RTrig.new.outputs (calls.map CtuCall.cu))

/-- Number of calls since the last reset at which the trigger is on. -/
def edges (calls : List CtuCall) : Nat :=
  ((triggered calls).rtakeWhile fun x => !x.1.r).countP Prod.snd

theorem run_concat (calls : List CtuCall) (c : CtuCall) :
    run (calls ++ [c]) = (run calls).call c := by
  rw [run, List.foldl_concat]
  rfl

/-- The counter and the trigger remember the same input. -/
theorem prevCu_run (calls : List CtuCall) :
    (run calls).prevCu = (RTrig.new.after (calls.map CtuCall.cu)).prevClk := by
  rcases List.eq_nil_or_concat' calls with rfl | ⟨before, last, rfl⟩
  · rfl
  · rw [run_concat, RTrig.after, List.map_append, List.foldl_append]
    rfl

theorem triggered_concat (calls : List CtuCall) (c : CtuCall) :
    triggered (calls ++ [c]) = triggered calls ++ [(c, c.cu && !(run calls).prevCu)] := by
  have hlength := RTrig.length_outputs .new (calls.map CtuCall.cu)
  rw [List.length_map] at hlength
  rw [triggered, List.map_append, List.map_singleton, RTrig.outputs_concat,
    List.zip_append hlength.symm, prevCu_run]
  rfl

/-- A counter is a stopwatch of edges that a reset clears. -/
theorem run_cv (calls : List CtuCall) :
    (run calls).cv = stopwatch i32Max (fun x : CtuCall × Bool => !x.1.r)
      (fun x => if x.2 then 1 else 0) (triggered calls) := by
  induction calls using List.reverseRecOn with
  | nil => rfl
  | append_singleton calls c ih =>
    have hmem : 0 ≤ (run calls).cv ∧ (run calls).cv ≤ i32Max := by
      rw [ih]
      exact stopwatch_mem (by decide) (by intro x; split <;> decide) (triggered calls)
    rw [run_concat, triggered_concat, stopwatch_concat, ← ih, tick, call]
    cases hr : c.r with
    | true => rfl
    -- the stopwatch is capped where the counter stops
    | false => exact countUp_eq_min hmem.2 _ _

/-- After every call of a new counter it shows the number of edges since the last reset, up to the
largest `i32`, and compares it with the preset of that call. An edge of a call with the reset on is
not counted then, nor by the calls after it. -/
theorem count_law (calls : List CtuCall) (c : CtuCall) :
    (run (calls ++ [c])).cv = min i32Max (edges (calls ++ [c])) ∧
      ((run (calls ++ [c])).q = true ↔ c.pv ≤ (run (calls ++ [c])).cv) := by
  constructor
  · rw [run_cv, stopwatch_eq (by decide) (by intro x; split <;> decide), lastRun_count]
    rfl
  · rw [run_concat]
    exact decide_eq_true_iff

end Ctu

/-! ## Edges in both directions -/

namespace Ctud

theorem run_concat (calls : List CtudCall) (c : CtudCall) :
    run (calls ++ [c]) = (run calls).call c := by
  rw [run, List.foldl_concat]
  rfl

/-- A counter stays in the range of `i32`, as the presets it loads do. -/
theorem inI32_run (calls : List CtudCall) (h : ∀ c ∈ calls, InI32 c.pv) :
    InI32 (run calls).cv := by
  induction calls using List.reverseRecOn with
  | nil => exact inI32_zero
  | append_singleton calls c ih =>
    have hbefore := ih fun c' hmem => h c' (List.mem_append_left _ hmem)
    rw [run_concat, call]
    cases c.r with
    | true => exact inI32_zero
    | false =>
      cases hld : c.ld with
      | true => exact h c (by simp)
      | false => exact inI32_countDown (inI32_countUp hbefore _ _) _ _

/-- Both inputs come on in a call that neither resets nor loads. -/
structure BothRise (t : Ctud) (c : CtudCall) : Prop where
  r : c.r = false
  ld : c.ld = false
  up : c.cu = true ∧ t.prevCu = false
  down : c.cd = true ∧ t.prevCd = false

theorem call_bothRise {t : Ctud} {c : CtudCall} (h : t.BothRise c) :
    (t.call c).cv = countDown true false (countUp true false t.cv) := by
  obtain ⟨hr, hld, ⟨hcu, hprevCu⟩, hcd, hprevCd⟩ := h
  simp only [call, hr, hld, hcu, hprevCu, hcd, hprevCd, Bool.false_eq_true, if_false]

theorem countDown_countUp_iff {cv : Int} (h : InI32 cv) :
    countDown true false (countUp true false cv) = cv ↔ cv ≠ i32Max := by
  obtain ⟨hmin, hmax⟩ := h
  have hlimits : i32Min < i32Max := by decide
  simp only [countDown, countUp, Bool.not_false, Bool.and_self, Bool.true_and, decide_eq_true_eq]
  by_cases hfull : cv = i32Max
  · -- the edge up is not counted, the one down is
    subst hfull
    rw [if_neg (lt_irrefl _), if_pos hlimits]
    omega
  · -- after the edge up the count is above the least `i32`
    rw [if_pos (lt_of_le_of_ne hmax hfull), if_pos (by omega)]
    omega

/-- In every state that calls with `i32` presets reach, simultaneous edges cancel exactly if the
count is not the largest `i32`. -/
theorem simultaneous_iff (calls : List CtudCall) (hpv : ∀ c ∈ calls, InI32 c.pv) (c : CtudCall)
    (h : (run calls).BothRise c) :
    ((run calls).call c).cv = (run calls).cv ↔ (run calls).cv ≠ i32Max := by
  rw [call_bothRise h]
  exact countDown_countUp_iff (inI32_run calls hpv)

/-- The edges come at a count of one. -/
theorem simultaneous_iff_one :
    ((run [⟨true, false, false, false, 5⟩, ⟨false, false, false, false, 5⟩]).call
        ⟨true, true, false, false, 5⟩).cv =
      (run [⟨true, false, false, false, 5⟩, ⟨false, false, false, false, 5⟩]).cv := by
  refine (simultaneous_iff _ ?_ _ ⟨rfl, rfl, ⟨rfl, rfl⟩, rfl, rfl⟩).mpr (by decide)
  intro c hmem
  have hpv : c.pv = 5 := by
    rcases List.mem_cons.mp hmem with rfl | hmem
    · rfl
    · rw [List.mem_singleton.mp hmem]
  rw [hpv]
  exact ⟨by decide, by decide⟩

/-- After the largest preset was loaded, simultaneous edges count down. -/
theorem simultaneous_at_largest :
    (∀ c ∈ [(⟨false, false, false, true, i32Max⟩ : CtudCall)], InI32 c.pv) ∧
      (run [⟨false, false, false, true, i32Max⟩]).BothRise ⟨true, true, false, false, 0⟩ ∧
      ((run [⟨false, false, false, true, i32Max⟩]).call ⟨true, true, false, false, 0⟩).cv =
        i32Max - 1 ∧
      ((run [⟨false, false, false, true, i32Max⟩]).call ⟨true, true, false, false, 0⟩).cv ≠
        (run [⟨false, false, false, true, i32Max⟩]).cv := by
  refine ⟨?_, ⟨rfl, rfl, ⟨rfl, rfl⟩, rfl, rfl⟩, by decide, by decide⟩
  intro c hmem
  rw [List.mem_singleton.mp hmem]
  exact ⟨by decide, le_refl _⟩

end Ctud

/-! ## The counter in both directions does what the others do -/

/-- A call of a counter up, of one in both directions. -/
def CtuCall.upDown (c : CtuCall) : CtudCall := ⟨c.cu, false, c.r, false, c.pv⟩

/-- A call of a counter down, of one in both directions. -/
def CtdCall.upDown (c : CtdCall) : CtudCall := ⟨false, c.cd, false, c.ld, c.pv⟩

theorem countUp_off (prev : Bool) (cv : Int) : countUp false prev cv = cv := rfl

theorem countDown_off (prev : Bool) (cv : Int) : countDown false prev cv = cv := rfl

/-- The counters agree on what a counter up keeps. -/
structure Ctu.Agrees (u : Ctu) (t : Ctud) : Prop where
  cv : t.cv = u.cv
  q : t.qu = u.q
  prev : t.prevCu = u.prevCu

theorem Ctu.Agrees.call {u : Ctu} {t : Ctud} (h : u.Agrees t) (c : CtuCall) :
    (u.call c).Agrees (t.call c.upDown) := by
  have hcv : (t.call c.upDown).cv = (u.call c).cv := by
    simp only [Ctud.call, Ctu.call, CtuCall.upDown, countDown_off, h.cv, h.prev,
      Bool.false_eq_true, if_false]
  refine ⟨hcv, ?_, rfl⟩
  change decide (c.pv ≤ (t.call c.upDown).cv) = decide (c.pv ≤ (u.call c).cv)
  rw [hcv]

/-- The counters agree on what a counter down keeps. -/
structure Ctd.Agrees (d : Ctd) (t : Ctud) : Prop where
  cv : t.cv = d.cv
  q : t.qd = d.q
  prev : t.prevCd = d.prevCd

theorem Ctd.Agrees.call {d : Ctd} {t : Ctud} (h : d.Agrees t) (c : CtdCall) :
    (d.call c).Agrees (t.call c.upDown) := by
  have hcv : (t.call c.upDown).cv = (d.call c).cv := by
    simp only [Ctud.call, Ctd.call, CtdCall.upDown, countUp_off, h.cv, h.prev,
      Bool.false_eq_true, if_false]
  refine ⟨hcv, ?_, rfl⟩
  change decide ((t.call c.upDown).cv ≤ 0) = decide ((d.call c).cv ≤ 0)
  rw [hcv]

/-- New blocks after any calls, each with its own preset: a counter in both directions shows what a
counter up shows while it is used as one, and what a counter down shows while it is used as that. -/
theorem ctud_refines :
    (∀ calls : List CtuCall, let t := Ctud.run (calls.map CtuCall.upDown)
      t.cv = (Ctu.run calls).cv ∧ t.qu = (Ctu.run calls).q) ∧
    (∀ calls : List CtdCall, let t := Ctud.run (calls.map CtdCall.upDown)
      t.cv = (Ctd.run calls).cv ∧ t.qd = (Ctd.run calls).q) := by
  constructor
  · -- the blocks agree after every call, by induction on the calls
    intro calls
    have hagrees : (Ctu.run calls).Agrees (Ctud.run (calls.map CtuCall.upDown)) := by
      rw [Ctud.run, List.foldl_map]
      exact List.foldl_rel ⟨rfl, rfl, rfl⟩ fun c _ _ _ h => h.call c
    exact ⟨hagrees.cv, hagrees.q⟩
  · intro calls
    have hagrees : (Ctd.run calls).Agrees (Ctud.run (calls.map CtdCall.upDown)) := by
      rw [Ctud.run, List.foldl_map]
      exact List.foldl_rel ⟨rfl, rfl, rfl⟩ fun c _ _ _ h => h.call c
    exact ⟨hagrees.cv, hagrees.q⟩

end VirtualPlc.Stdlib
