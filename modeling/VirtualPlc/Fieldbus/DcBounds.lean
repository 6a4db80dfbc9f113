import Mathlib.Algebra.BigOperators.Group.List.Basic
import VirtualPlc.Fieldbus.DcSync

/-!
# Overflow in the distributed clocks

The measured times come from the network. `safe_started_iff`: the updates and the readers of the
statistics stay within their types exactly as long as the deviations are `Calm`.
-/

set_option autoImplicit false

namespace VirtualPlc.Fieldbus

open VirtualPlc.Word

/-- A measured time, with the time elapsed when it is taken over. -/
structure Measurement where
  elapsed : Duration
  time : BitVec 64
deriving DecidableEq, Repr

namespace DcController

/-- Takes over measurements one by one. -/
def run (b : Build) (dc : DcController) (ms : List Measurement) : Except Failure DcController :=
  ms.foldlM (fun dc m => do
    let (_, dc') ← dc.update b m.elapsed m.time
    return dc') dc

/-- No reader overflows or divides by zero: a debug build returns from all of them. -/
structure Readable (dc : DcController) : Prop where
  expected : ∀ elapsed, ∃ t, dc.systemTime.expectedDcTime .debug elapsed = .ok t
  mean : ∃ r, dc.stats.meanDeviationNs = .ok r
  jitter : ∃ r, dc.stats.jitterNs .debug = .ok r

/-- No update overflows, and no reader does after any of them. -/
def Safe (dc : DcController) (ms : List Measurement) : Prop :=
  ∀ front, front <+: ms → ∃ dc', dc.run .debug front = .ok dc' ∧ dc'.Readable

/-- A new controller with its slaves, synchronised to a first time. -/
def started (cycleTime : Duration) (slaves : List DcSlaveConfig) (initial : BitVec 64) :
    DcController :=
  (slaves.foldl addSlave (new cycleTime)).initializeAt initial

end DcController

/-! ## The deviations -/

/-- How far a measured time is from the one expected, modulo `2 ^ 64`. -/
def deviation (base : BitVec 64) (correction : Int) (m : Measurement) : Int :=
  (m.time - clampTime (base.toNat + m.elapsed.ns + correction)).toInt

/-- A sixteenth of every deviation is corrected. -/
def correctionOf (ds : List Int) : Int := (ds.map (· / 2 ^ 4)).sum

/-- The deviations of some measurements, with all corrections exact. -/
def deviations (base : BitVec 64) : Int → List Measurement → List Int
  | _, [] => []
  | correction, m :: ms =>
    deviation base correction m ::
      deviations base (correction + deviation base correction m / 2 ^ 4) ms

/-- The correction stays in range, no deviation is the smallest integer, any two are less than
`2 ^ 63` apart, and there are not too many. -/
structure Calm (ds : List Int) : Prop where
  length : ds.length < 2 ^ 64
  moderate : ∀ d ∈ ds, d ≠ i64Min
  steady : ∀ front, front <+: ds → i64Min ≤ correctionOf front ∧ correctionOf front ≤ i64Max
  close : ∀ d ∈ ds, ∀ d' ∈ ds, d - d' ≤ i64Max
  mean : ¬ (ds.length = 2 ^ 64 - 1 ∧ ds.sum.bmod (2 ^ 64) = i64Min)

@[simp] theorem correctionOf_nil : correctionOf [] = 0 := rfl

@[simp] theorem correctionOf_cons (d : Int) (ds : List Int) :
    correctionOf (d :: ds) = d / 2 ^ 4 + correctionOf ds := by
  simp [correctionOf]

@[simp] theorem correctionOf_concat (ds : List Int) (d : Int) :
    correctionOf (ds ++ [d]) = correctionOf ds + d / 2 ^ 4 := by
  simp [correctionOf]

theorem deviations_concat (base : BitVec 64) (correction : Int) (ms : List Measurement)
    (m : Measurement) :
    deviations base correction (ms ++ [m]) = deviations base correction ms ++
      [deviation base (correction + correctionOf (deviations base correction ms)) m] := by
  induction ms generalizing correction with
  | nil => simp [deviations]
  | cons m' ms ih =>
    rw [List.cons_append, deviations, ih, deviations, List.cons_append, correctionOf_cons,
      Int.add_assoc]

/-- A deviation is a value of `i64`. -/
theorem deviation_range (base : BitVec 64) (correction : Int) (m : Measurement) :
    i64Min ≤ deviation base correction m ∧ deviation base correction m ≤ i64Max := by
  have hlow := BitVec.le_toInt (m.time - clampTime (base.toNat + m.elapsed.ns + correction))
  have hhigh := BitVec.toInt_lt
    (x := m.time - clampTime (base.toNat + m.elapsed.ns + correction))
  rw [deviation, i64Min, i64Max]
  omega

/-- The first deviations of a calm run are calm. -/
theorem Calm.of_concat {ds : List Int} {d : Int} (h : Calm (ds ++ [d])) : Calm ds where
  length := by
    have hlen := h.length
    rw [List.length_append, List.length_singleton] at hlen
    omega
  moderate := fun d' hmem => h.moderate d' (List.mem_append_left _ hmem)
  steady := fun front hfront => h.steady front (hfront.trans (List.prefix_append ds [d]))
  close := fun d₁ h₁ d₂ h₂ =>
    h.close d₁ (List.mem_append_left _ h₁) d₂ (List.mem_append_left _ h₂)
  mean := by
    have hlen := h.length
    rw [List.length_append, List.length_singleton] at hlen
    omega

theorem calm_nil : Calm [] where
  length := by decide
  moderate := by simp
  steady := by
    intro front hfront
    rw [List.prefix_nil.mp hfront]
    decide
  close := by simp
  mean := by simp

/-! ## One update -/

/-- The controller after some deviations. -/
structure Tracks (base : BitVec 64) (ds : List Int) (dc : DcController) : Prop where
  active : dc.active = true
  reference : dc.systemTime.dcTimeAtReference = base
  correction : dc.systemTime.driftCorrectionNs = correctionOf ds
  cycleCount : dc.systemTime.cycleCount = ds.length
  syncCycles : dc.stats.syncCycles = ds.length
  syncErrors : dc.stats.syncErrors ≤ ds.length
  sum : dc.stats.sumDeviationNs = ds.sum.bmod (2 ^ 64)
  least : (∀ d ∈ ds, dc.stats.minDeviationNs ≤ d) ∧
    (ds = [] ∧ dc.stats.minDeviationNs = i64Max ∨ dc.stats.minDeviationNs ∈ ds)
  greatest : (∀ d ∈ ds, d ≤ dc.stats.maxDeviationNs) ∧
    (ds = [] ∧ dc.stats.maxDeviationNs = i64Min ∨ dc.stats.maxDeviationNs ∈ ds)
  range : i64Min ≤ correctionOf ds ∧ correctionOf ds ≤ i64Max
  values : ∀ d ∈ ds, i64Min ≤ d ∧ d ≤ i64Max

variable {base : BitVec 64} {ds : List Int} {dc : DcController}

/-- The expected time is computed without overflow. -/
theorem Tracks.expectedDcTime (h : Tracks base ds dc) (elapsed : Duration) :
    dc.systemTime.expectedDcTime .debug elapsed =
      .ok (clampTime (base.toNat + elapsed.ns + correctionOf ds)) := by
  have hbase := base.isLt
  have helapsed := elapsed.lt
  have hrange := h.range
  rw [i64Min, i64Max] at hrange
  rw [DcSystemTime.expectedDcTime, h.reference, h.correction, i128Add_eq (by omega)]
  simp only [bind, Except.bind]
  rw [i128Add_eq (by omega)]
  rfl

/-- The state after one more deviation, where nothing overflows. -/
def DcController.advanced (dc : DcController) (m : Measurement) (d : Int) (errors : Nat) :
    DcController :=
  { dc with
    systemTime := { dc.systemTime with
      driftCorrectionNs := dc.systemTime.driftCorrectionNs + d / 2 ^ 4
      lastDcTime := m.time
      cycleCount := dc.systemTime.cycleCount + 1 }
    stats := { dc.stats with
      syncCycles := dc.stats.syncCycles + 1
      minDeviationNs := min dc.stats.minDeviationNs d
      maxDeviationNs := max dc.stats.maxDeviationNs d
      sumDeviationNs := (dc.stats.sumDeviationNs + d).bmod (2 ^ 64)
      syncErrors := errors } }

/-- What an update needs to stay in range. -/
structure Fits (ds : List Int) (d : Int) : Prop where
  length : ds.length + 1 < 2 ^ 64
  moderate : d ≠ i64Min
  steady : i64Min ≤ correctionOf ds + d / 2 ^ 4 ∧ correctionOf ds + d / 2 ^ 4 ≤ i64Max

/-- Where an update returns, its deviation fits, and it advances. -/
theorem Tracks.of_update (h : Tracks base ds dc) {m : Measurement} {r : Int × DcController}
    (hr : dc.update .debug m.elapsed m.time = .ok r) :
    Fits ds (deviation base (correctionOf ds) m) ∧
      ∃ errors, errors ≤ ds.length + 1 ∧
        r.2 = dc.advanced m (deviation base (correctionOf ds) m) errors := by
  rw [DcController.update, if_pos h.active] at hr
  obtain ⟨⟨d, time⟩, htime, hr⟩ := bind_eq_ok.1 hr
  obtain ⟨stats, hstats, hr⟩ := bind_eq_ok.1 hr
  obtain ⟨expected, hexpected, htime⟩ := bind_eq_ok.1 htime
  obtain ⟨correction, hcorrection, htime⟩ := bind_eq_ok.1 htime
  obtain ⟨count, hcount, htime⟩ := bind_eq_ok.1 htime
  rw [h.expectedDcTime] at hexpected
  cases hexpected
  cases htime
  cases hr
  obtain ⟨cycles, hcycles, hstats⟩ := bind_eq_ok.1 hstats
  obtain ⟨distance, hdistance, hstats⟩ := bind_eq_ok.1 hstats
  obtain ⟨errors, herrors, hstats⟩ := bind_eq_ok.1 hstats
  cases hstats
  obtain ⟨hrange, rfl⟩ := i64Add_debug.1 hcorrection
  obtain ⟨hlength, rfl⟩ := u64Add_debug.1 hcount
  obtain ⟨-, rfl⟩ := u64Add_debug.1 hcycles
  obtain ⟨hmoderate, rfl⟩ := i64Abs_debug.1 hdistance
  refine ⟨⟨?_, hmoderate, ?_⟩, errors, ?_, rfl⟩
  · rwa [h.cycleCount] at hlength
  · rwa [h.correction] at hrange
  · have hold := h.syncErrors
    rw [DcSyncStats.countError] at herrors
    split at herrors
    · obtain ⟨-, rfl⟩ := u64Add_debug.1 herrors
      omega
    · cases herrors
      omega

/-- Where a deviation fits, the update returns. -/
theorem Tracks.update_of_fits (h : Tracks base ds dc) {m : Measurement}
    (hfits : Fits ds (deviation base (correctionOf ds) m)) :
    ∃ r, dc.update .debug m.elapsed m.time = .ok r := by
  obtain ⟨hlength, hmoderate, hsteady⟩ := hfits
  have hcycles : u64Add .debug dc.stats.syncCycles 1 = .ok (dc.stats.syncCycles + 1) :=
    u64Add_debug.2 ⟨by rw [h.syncCycles]; exact hlength, rfl⟩
  have herrors : ∀ distance, ∃ errors, dc.stats.countError .debug distance = .ok errors := by
    intro distance
    have hold := h.syncErrors
    rw [DcSyncStats.countError]
    split
    · exact ⟨_, u64Add_debug.2 ⟨by omega, rfl⟩⟩
    · exact ⟨_, rfl⟩
  have hcount : u64Add .debug dc.systemTime.cycleCount 1 = .ok (dc.systemTime.cycleCount + 1) :=
    u64Add_debug.2 ⟨by rw [h.cycleCount]; exact hlength, rfl⟩
  have hdistance := i64Abs_debug.2 ⟨hmoderate, rfl⟩
  have hcorrection := i64Add_eq (b := .debug) hsteady
  rw [DcController.update, if_pos h.active, DcSystemTime.update, h.expectedDcTime]
  simp only [bind, Except.bind, pure, Except.pure]
  obtain ⟨errors, herrors⟩ := herrors (deviation base (correctionOf ds) m).natAbs
  rw [deviation] at hdistance hcorrection herrors
  rw [h.correction, hcorrection]
  simp only [hcount, DcSyncStats.record, bind, Except.bind, hcycles, hdistance, herrors]
  exact ⟨_, rfl⟩

/-- An update keeps track of the deviations. -/
theorem Tracks.advanced (h : Tracks base ds dc) {m : Measurement} {errors : Nat}
    (hfits : Fits ds (deviation base (correctionOf ds) m)) (herrors : errors ≤ ds.length + 1) :
    Tracks base (ds ++ [deviation base (correctionOf ds) m])
      (dc.advanced m (deviation base (correctionOf ds) m) errors) := by
  have hd := deviation_range base (correctionOf ds) m
  generalize deviation base (correctionOf ds) m = d at hfits hd ⊢
  have hcorrection : correctionOf (ds ++ [d]) = correctionOf ds + d / 2 ^ 4 :=
    correctionOf_concat ds d
  refine ⟨h.active, h.reference, ?_, ?_, ?_, ?_, ?_, ⟨?_, .inr ?_⟩, ⟨?_, .inr ?_⟩, ?_, ?_⟩
  · rw [hcorrection, ← h.correction]
    rfl
  · rw [List.length_append, ← h.cycleCount]
    rfl
  · rw [List.length_append, ← h.syncCycles]
    rfl
  · simpa [DcController.advanced] using herrors
  -- the sum wraps, so it is tracked modulo its word
  · have hsum : (dc.stats.sumDeviationNs + d).bmod (2 ^ 64) = (ds ++ [d]).sum.bmod (2 ^ 64) := by
      rw [h.sum, Int.bmod_add_bmod]
      simp
    exact hsum
  · intro d' hmem
    have hleast := h.least.1
    simp only [DcController.advanced]
    rcases List.mem_append.mp hmem with hold | hnew
    · exact (min_le_left _ _).trans (hleast d' hold)
    · rw [List.mem_singleton.mp hnew]
      exact min_le_right _ _
  · -- the least deviation is an old one or the new one
    simp only [DcController.advanced]
    rcases h.least.2 with ⟨rfl, hmax⟩ | hmem
    · simp [hmax, hd.2]
    · rcases min_choice dc.stats.minDeviationNs d with hmin | hmin
      · rw [hmin]
        exact List.mem_append_left _ hmem
      · simp [hmin]
  · intro d' hmem
    have hgreatest := h.greatest.1
    simp only [DcController.advanced]
    rcases List.mem_append.mp hmem with hold | hnew
    · exact (hgreatest d' hold).trans (le_max_left _ _)
    · rw [List.mem_singleton.mp hnew]
      exact le_max_right _ _
  · simp only [DcController.advanced]
    rcases h.greatest.2 with ⟨rfl, hmin⟩ | hmem
    · simp [hmin, hd.1]
    · rcases max_choice dc.stats.maxDeviationNs d with hmax | hmax
      · rw [hmax]
        exact List.mem_append_left _ hmem
      · simp [hmax]
  · rw [hcorrection]
    exact hfits.steady
  · intro d' hmem
    rcases List.mem_append.mp hmem with hold | hnew
    · exact h.values d' hold
    · rw [List.mem_singleton.mp hnew]
      exact hd

/-! ## The readers -/

/-- Any two deviations are less than `2 ^ 63` apart. -/
def Close (ds : List Int) : Prop := ∀ d ∈ ds, ∀ d' ∈ ds, d - d' ≤ i64Max

/-- The mean does not divide the smallest integer by minus one. -/
def Divisible (ds : List Int) : Prop :=
  ¬ (ds.length = 2 ^ 64 - 1 ∧ ds.sum.bmod (2 ^ 64) = i64Min)

theorem asI64_of_lt {n : Nat} (h : n < 2 ^ 64) :
    asI64 n = if n < 2 ^ 63 then (n : Int) else (n : Int) - 2 ^ 64 := by
  unfold asI64
  by_cases hsmall : n < 2 ^ 63
  · rw [if_pos hsmall]
    apply Int.bmod_eq_of_le
    · omega
    · omega
  · have hsame := Int.sub_mul_bmod_self_left (n : Int) (2 ^ 64) 1
    rw [if_neg hsmall, ← hsame]
    apply Int.bmod_eq_of_le
    · omega
    · omega

theorem Tracks.mean_iff (h : Tracks base ds dc) (hlength : ds.length < 2 ^ 64) :
    (∃ r, dc.stats.meanDeviationNs = .ok r) ↔ Divisible ds := by
  rw [DcSyncStats.meanDeviationNs, h.syncCycles, h.sum, Divisible]
  by_cases hpos : 0 < ds.length
  · have hcycles : asI64 ds.length = -1 ↔ ds.length = 2 ^ 64 - 1 := by
      rw [asI64_of_lt hlength]
      split <;> omega
    have hnonzero : asI64 ds.length ≠ 0 := by
      rw [asI64_of_lt hlength]
      split <;> omega
    have hdiv : (∃ q, i64Div (ds.sum.bmod (2 ^ 64)) (asI64 ds.length) = .ok q) ↔
        ¬ (ds.length = 2 ^ 64 - 1 ∧ ds.sum.bmod (2 ^ 64) = i64Min) := by
      rw [i64Div_returns_iff, hcycles, and_iff_right hnonzero, and_comm]
    rw [if_pos hpos, ← hdiv]
    cases i64Div (ds.sum.bmod (2 ^ 64)) (asI64 ds.length) with
    | error e => simp [Functor.map, Except.map]
    | ok q => simp [Functor.map, Except.map]
  · rw [if_neg hpos]
    refine iff_of_true ⟨none, rfl⟩ ?_
    omega

theorem Tracks.jitter_iff (h : Tracks base ds dc) :
    (∃ r, dc.stats.jitterNs .debug = .ok r) ↔ Close ds := by
  obtain ⟨hleast, hmin⟩ := h.least
  obtain ⟨hgreatest, hmax⟩ := h.greatest
  rw [DcSyncStats.jitterNs, h.syncCycles]
  rcases eq_or_ne ds [] with rfl | hne
  · rw [if_neg (by simp)]
    exact iff_of_true ⟨none, rfl⟩ (by simp [Close])
  · have hpos : 0 < ds.length := List.length_pos_of_ne_nil hne
    have hmin' : dc.stats.minDeviationNs ∈ ds := hmin.resolve_left fun hnil => hne hnil.1
    have hmax' : dc.stats.maxDeviationNs ∈ ds := hmax.resolve_left fun hnil => hne hnil.1
    have horder := hleast _ hmax'
    have hrange := h.values _ hmax'
    have hclose : Close ds ↔ dc.stats.maxDeviationNs - dc.stats.minDeviationNs ≤ i64Max := by
      refine ⟨fun hc => hc _ hmax' _ hmin', fun hspan d hd d' hd' => ?_⟩
      have hlow := hleast d' hd'
      have hhigh := hgreatest d hd
      omega
    rw [hclose]
    by_cases hall : dc.stats.minDeviationNs = i64Max
    · -- all deviations are the largest integer
      rw [if_neg (by simp [hall])]
      refine iff_of_true ⟨none, rfl⟩ ?_
      rw [i64Max] at *
      omega
    · have hsub : (∃ r, i64Sub .debug dc.stats.maxDeviationNs dc.stats.minDeviationNs = .ok r) ↔
          dc.stats.maxDeviationNs - dc.stats.minDeviationNs ≤ i64Max := by
        constructor
        · rintro ⟨r, hr⟩
          exact (i64Sub_debug.1 hr).1.2
        · intro hspan
          refine ⟨_, i64Sub_debug.2 ⟨⟨?_, hspan⟩, rfl⟩⟩
          rw [i64Min]
          omega
      rw [if_pos ⟨hpos, hall⟩, ← hsub]
      cases i64Sub .debug dc.stats.maxDeviationNs dc.stats.minDeviationNs with
      | error e => simp [Functor.map, Except.map]
      | ok span => simp [Functor.map, Except.map]

theorem Tracks.readable_iff (h : Tracks base ds dc) (hlength : ds.length < 2 ^ 64) :
    dc.Readable ↔ Divisible ds ∧ Close ds := by
  rw [← h.mean_iff hlength, ← h.jitter_iff]
  exact ⟨fun hr => ⟨hr.mean, hr.jitter⟩, fun hr => ⟨fun e => ⟨_, h.expectedDcTime e⟩, hr.1, hr.2⟩⟩

/-! ## Runs -/

theorem calm_concat {d : Int} :
    Calm (ds ++ [d]) ↔ Calm ds ∧ Fits ds d ∧ Divisible (ds ++ [d]) ∧ Close (ds ++ [d]) := by
  constructor
  · intro h
    have hlength := h.length
    rw [List.length_append, List.length_singleton] at hlength
    have hsteady := h.steady _ List.prefix_rfl
    rw [correctionOf_concat] at hsteady
    exact ⟨h.of_concat, ⟨hlength, h.moderate d (by simp), hsteady⟩, h.mean, h.close⟩
  · rintro ⟨h, hfits, hmean, hclose⟩
    refine ⟨?_, ?_, ?_, hclose, hmean⟩
    · rw [List.length_append, List.length_singleton]
      exact hfits.length
    · intro d' hmem
      rcases List.mem_append.mp hmem with hold | hnew
      · exact h.moderate d' hold
      · rw [List.mem_singleton.mp hnew]
        exact hfits.moderate
    · intro front hfront
      rcases List.prefix_concat_iff.mp hfront with rfl | hold
      · rw [correctionOf_concat]
        exact hfits.steady
      · exact h.steady front hold

theorem DcController.run_concat (b : Build) (dc : DcController) (ms : List Measurement)
    (m : Measurement) :
    dc.run b (ms ++ [m]) = do
      let dc' ← dc.run b ms
      let r ← dc'.update b m.elapsed m.time
      return r.2 :=
  foldlM_concat _ _ _ _

theorem DcController.safe_concat {ms : List Measurement} {m : Measurement} :
    dc.Safe (ms ++ [m]) ↔
      dc.Safe ms ∧ ∃ dc', dc.run .debug (ms ++ [m]) = .ok dc' ∧ dc'.Readable := by
  constructor
  · intro h
    exact ⟨fun front hfront => h front (hfront.trans (List.prefix_append ms [m])),
      h _ List.prefix_rfl⟩
  · rintro ⟨h, hlast⟩ front hfront
    rcases List.prefix_concat_iff.mp hfront with rfl | hold
    · exact hlast
    · exact h front hold

/-- From a controller that has seen nothing yet, a run is safe exactly if its deviations are calm,
and then it keeps track of them. -/
theorem Tracks.safe_iff (h : Tracks base [] dc) (ms : List Measurement) :
    (dc.Safe ms ↔ Calm (deviations base 0 ms)) ∧
      (Calm (deviations base 0 ms) →
        ∃ dc', dc.run .debug ms = .ok dc' ∧ Tracks base (deviations base 0 ms) dc') := by
  induction ms using List.reverseRecOn with
  | nil =>
    refine ⟨iff_of_true (fun front hfront => ?_) calm_nil, fun _ => ⟨dc, rfl, h⟩⟩
    rw [List.prefix_nil.mp hfront]
    exact ⟨dc, rfl, (h.readable_iff (by decide)).2 ⟨by simp [Divisible], by simp [Close]⟩⟩
  | append_singleton ms m ih =>
    obtain ⟨hsafe, htracks⟩ := ih
    rw [deviations_concat, Int.zero_add, calm_concat]
    -- the step: an update of the controller that tracks the deviations so far
    have hstep : ∀ dc', dc.run .debug ms = .ok dc' → Tracks base (deviations base 0 ms) dc' →
        (∀ dc'', dc.run .debug (ms ++ [m]) = .ok dc'' →
          Fits (deviations base 0 ms)
              (deviation base (correctionOf (deviations base 0 ms)) m) ∧
            Tracks base (deviations base 0 ms ++
              [deviation base (correctionOf (deviations base 0 ms)) m]) dc'') ∧
          (Fits (deviations base 0 ms) (deviation base (correctionOf (deviations base 0 ms)) m) →
            ∃ dc'', dc.run .debug (ms ++ [m]) = .ok dc'') := by
      intro dc' hrun ht
      rw [DcController.run_concat, hrun]
      constructor
      · intro dc'' hdc''
        obtain ⟨before, hbefore, hdc''⟩ := bind_eq_ok.1 hdc''
        cases hbefore
        obtain ⟨r, hr, hret⟩ := bind_eq_ok.1 hdc''
        cases hret
        obtain ⟨hfits, errors, herrors, heq⟩ := ht.of_update hr
        rw [heq]
        exact ⟨hfits, ht.advanced hfits herrors⟩
      · intro hfits
        obtain ⟨r, hr⟩ := ht.update_of_fits hfits
        exact ⟨r.2, bind_eq_ok.2 ⟨dc', rfl, bind_eq_ok.2 ⟨r, hr, rfl⟩⟩⟩
    constructor
    · rw [DcController.safe_concat, hsafe]
      refine and_congr_right fun hcalm => ?_
      obtain ⟨dc', hrun, ht⟩ := htracks hcalm
      obtain ⟨hout, hin⟩ := hstep dc' hrun ht
      constructor
      · rintro ⟨dc'', hdc'', hreadable⟩
        obtain ⟨hfits, ht''⟩ := hout dc'' hdc''
        refine ⟨hfits, (ht''.readable_iff ?_).1 hreadable⟩
        rw [List.length_append, List.length_singleton]
        exact hfits.length
      · rintro ⟨hfits, hreaders⟩
        obtain ⟨dc'', hdc''⟩ := hin hfits
        refine ⟨dc'', hdc'', ((hout dc'' hdc'').2.readable_iff ?_).2 hreaders⟩
        rw [List.length_append, List.length_singleton]
        exact hfits.length
    · rintro ⟨hcalm, hfits, -⟩
      obtain ⟨dc', hrun, ht⟩ := htracks hcalm
      obtain ⟨hout, hin⟩ := hstep dc' hrun ht
      obtain ⟨dc'', hdc''⟩ := hin hfits
      exact ⟨dc'', hdc'', (hout dc'' hdc'').2⟩

/-! ## From a new controller -/

namespace DcController

/-- Adding slaves leaves the clock alone. -/
theorem foldl_addSlave (dc : DcController) (slaves : List DcSlaveConfig) :
    (slaves.foldl addSlave dc).systemTime = dc.systemTime ∧
      (slaves.foldl addSlave dc).stats = dc.stats ∧
      ((slaves.foldl addSlave dc).referenceClock = none ↔
        dc.referenceClock = none ∧ ∀ slave ∈ slaves, slave.dcSupported = false) := by
  induction slaves generalizing dc with
  | nil => simp
  | cons slave slaves ih =>
    obtain ⟨htime, hstats, hclock⟩ := ih (dc.addSlave slave)
    have hone : (dc.addSlave slave).systemTime = dc.systemTime ∧
        (dc.addSlave slave).stats = dc.stats ∧
        ((dc.addSlave slave).referenceClock = none ↔
          dc.referenceClock = none ∧ slave.dcSupported = false) := by
      rw [addSlave]
      cases hreference : dc.referenceClock with
      | none => cases slave.dcSupported <;> simp
      | some position =>
        rw [Option.isNone_some, Bool.and_false, if_neg Bool.false_ne_true]
        simp
    rw [List.foldl_cons, htime, hstats, hclock, hone.1, hone.2.1, hone.2.2]
    simp [and_assoc]

/-- Without a reference clock, updates change nothing. -/
theorem run_inactive {dc : DcController} (h : dc.active = false) (b : Build)
    (ms : List Measurement) : dc.run b ms = .ok dc := by
  induction ms with
  | nil => rfl
  | cons m ms ih =>
    have hupdate : dc.update b m.elapsed m.time = .ok (0, dc) := by simp [update, h]
    rw [run, List.foldlM_cons, hupdate]
    exact ih

/-- A new controller has seen no deviation. -/
theorem started_tracks {cycleTime : Duration} {slaves : List DcSlaveConfig} (initial : BitVec 64)
    (h : ¬ ∀ slave ∈ slaves, slave.dcSupported = false) :
    Tracks initial [] (started cycleTime slaves initial) := by
  obtain ⟨-, hstats, hclock⟩ := foldl_addSlave (new cycleTime) slaves
  have hsome : (slaves.foldl addSlave (new cycleTime)).referenceClock.isNone = false := by
    rw [Option.isNone_eq_false_iff, Option.isSome_iff_ne_none, ne_eq, hclock]
    exact fun hnone => h hnone.2
  have hthreshold : (slaves.foldl addSlave (new cycleTime)).stats.reset = .new 1000 := by
    rw [hstats]
    rfl
  rw [started, initializeAt, hsome, hthreshold]
  exact ⟨rfl, rfl, rfl, rfl, rfl, le_rfl, rfl, ⟨by simp, .inl ⟨rfl, rfl⟩⟩,
    ⟨by simp, .inl ⟨rfl, rfl⟩⟩, by decide, by simp⟩

/-- The updates with measured times, and the readers after each of them, stay within their types
exactly if no slave has a clock or the deviations are calm. -/
theorem safe_started_iff (cycleTime : Duration) (slaves : List DcSlaveConfig) (initial : BitVec 64)
    (ms : List Measurement) :
    (started cycleTime slaves initial).Safe ms ↔
      (∀ slave ∈ slaves, slave.dcSupported = false) ∨ Calm (deviations initial 0 ms) := by
  by_cases hnone : ∀ slave ∈ slaves, slave.dcSupported = false
  · refine iff_of_true (fun front _ => ?_) (.inl hnone)
    obtain ⟨htime, hstats, hclock⟩ := foldl_addSlave (new cycleTime) slaves
    have hreference : (slaves.foldl addSlave (new cycleTime)).referenceClock = none :=
      hclock.2 ⟨rfl, hnone⟩
    have hstarted : started cycleTime slaves initial =
        { slaves.foldl addSlave (new cycleTime) with active := false } := by
      rw [started, initializeAt, if_pos (by rw [hreference]; rfl)]
    rw [hstarted, run_inactive rfl]
    refine ⟨_, rfl, fun elapsed => ?_, ⟨none, ?_⟩, ⟨none, ?_⟩⟩
    · have helapsed := elapsed.lt
      simp only [htime]
      have hsum : i128Add .debug ((new cycleTime).systemTime.dcTimeAtReference.toNat : Int)
          elapsed.ns = .ok elapsed.ns := by
        rw [i128Add_eq]
        · simp [new, DcSystemTime.new]
        · simp only [new, DcSystemTime.new]
          omega
      rw [DcSystemTime.expectedDcTime, hsum]
      have hdrift : i128Add .debug (elapsed.ns : Int) (new cycleTime).systemTime.driftCorrectionNs =
          .ok elapsed.ns := by
        rw [i128Add_eq]
        · simp [new, DcSystemTime.new]
        · simp only [new, DcSystemTime.new]
          omega
      exact ⟨_, bind_eq_ok.2 ⟨_, rfl, bind_eq_ok.2 ⟨_, hdrift, rfl⟩⟩⟩
    · simp only [hstats]
      rfl
    · simp only [hstats]
      rfl
  · rw [or_iff_right hnone]
    exact ((started_tracks initial hnone).safe_iff ms).1

/-- A reference clock that jumps by `2 ^ 63`: the absolute deviation overflows. -/
theorem safe_fails :
    ¬ (started ⟨1000000, by decide⟩ [(DcSlaveConfig.new 0).withSync0 1000000] 0).Safe
      [⟨⟨0, by decide⟩, BitVec.ofNat 64 (2 ^ 63)⟩] := by
  intro h
  obtain ⟨dc', hrun, -⟩ := h _ List.prefix_rfl
  have hpanic : (started ⟨1000000, by decide⟩ [(DcSlaveConfig.new 0).withSync0 1000000] 0).run
      .debug [⟨⟨0, by decide⟩, BitVec.ofNat 64 (2 ^ 63)⟩] =
        .error (.panic "attempt to negate with overflow") := by decide
  rw [hpanic] at hrun
  cases hrun

end DcController

end VirtualPlc.Fieldbus
