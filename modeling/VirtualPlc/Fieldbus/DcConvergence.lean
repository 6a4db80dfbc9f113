import VirtualPlc.Fieldbus.DcBounds
import VirtualPlc.Word.Decay

/-!
# Convergence of the drift filter

Against a reference clock with a constant offset each update reports what the filter has not
corrected yet, and corrects a sixteenth of it: the drifts decay (`run_eq`). `drift_converges` draws
the conclusions.
-/

set_option autoImplicit false

namespace VirtualPlc.Fieldbus

open VirtualPlc.Word

namespace DcSystemTime

/-- Takes over measurements one by one and answers their drifts. -/
def run (b : Build) (t : DcSystemTime) : List Measurement → Except Failure (List Int × DcSystemTime)
  | [] => .ok ([], t)
  | m :: ms => do
    let (d, t) ← t.update b m.elapsed m.time
    let (ds, t) ← t.run b ms
    return (d :: ds, t)

/-- The time expected before it is clamped. -/
def unclamped (t : DcSystemTime) (elapsed : Duration) : Int :=
  t.dcTimeAtReference.toNat + elapsed.ns + t.driftCorrectionNs

/-- At no update of a run the expected time is clamped. -/
def NeverClamped (b : Build) (t : DcSystemTime) (ms : List Measurement) : Prop :=
  ∀ before m after, ms = before ++ m :: after → ∀ ds t', t.run b before = .ok (ds, t') →
    0 ≤ t'.unclamped m.elapsed ∧ t'.unclamped m.elapsed ≤ 2 ^ 64 - 1

/-- The count of the updates does not panic: a release build wraps. -/
def Counts (b : Build) (t : DcSystemTime) (ms : List Measurement) : Prop :=
  b = .debug → t.cycleCount + ms.length < 2 ^ 64

/-- The measured times are those of a clock that is ahead by `c`. -/
def Offset (t : DcSystemTime) (c : Int) (ms : List Measurement) : Prop :=
  ∀ m ∈ ms, (m.time.toNat : Int) = t.dcTimeAtReference.toNat + m.elapsed.ns + c

end DcSystemTime

/-- A time in range is not changed by the clamp. -/
theorem clampTime_eq {time : Int} (h : 0 ≤ time ∧ time ≤ 2 ^ 64 - 1) :
    clampTime time = BitVec.ofInt 64 time := by
  rw [clampTime, if_neg (by omega), if_neg (by omega)]

/-- Two times that are at most an `i64` apart have their exact difference. -/
theorem toInt_sub_ofInt {measured : BitVec 64} {expected : Int}
    (h : i64Min ≤ measured.toNat - expected ∧ measured.toNat - expected ≤ i64Max) :
    (measured - BitVec.ofInt 64 expected).toInt = measured.toNat - expected := by
  simp only [i64Min, i64Max] at h
  have hmeasured : measured = BitVec.ofInt 64 measured.toNat := by
    rw [BitVec.ofInt_natCast, BitVec.ofNat_toNat, BitVec.setWidth_eq]
  have hdiff : measured - BitVec.ofInt 64 expected =
      BitVec.ofInt 64 (measured.toNat - expected) := by
    rw [Int.sub_eq_add_neg, BitVec.ofInt_add, BitVec.ofInt_neg, ← hmeasured, BitVec.sub_eq_add_neg]
  rw [hdiff, BitVec.toInt_ofInt]
  exact Int.bmod_eq_of_le (by omega) (by omega)

namespace DcSystemTime

/-- The filter has corrected all but `d` of the offset `c`; at first it was all but `first`. -/
structure Uncorrected (base : BitVec 64) (c first d : Int) (t : DcSystemTime) : Prop where
  reference : t.dcTimeAtReference = base
  correction : t.driftCorrectionNs = c - d
  between : Between first d

variable {b : Build} {base : BitVec 64} {c first d : Int} {t : DcSystemTime}

/-- An update reports what has not been corrected, and leaves it decayed. -/
theorem Uncorrected.update (h : t.Uncorrected base c first d) (hc : InI64 c) (hfirst : InI64 first)
    (hstart : InI64 (c - first)) {m : Measurement}
    (htime : (m.time.toNat : Int) = base.toNat + m.elapsed.ns + c)
    (hclamp : 0 ≤ t.unclamped m.elapsed ∧ t.unclamped m.elapsed ≤ 2 ^ 64 - 1)
    (hcount : b = .debug → t.cycleCount + 1 < 2 ^ 64) :
    ∃ t', t.update b m.elapsed m.time = .ok (d, t') ∧ t'.Uncorrected base c first (decay 4 d) ∧
      (t.cycleCount + 1 < 2 ^ 64 → t'.cycleCount = t.cycleCount + 1) := by
  have hbetween := h.between
  have hnext : Between first (decay 4 d) := h.between.decay
  have helapsed := m.elapsed.lt
  have hbase := base.isLt
  simp only [InI64, i64Min, i64Max] at hc hfirst hstart
  rw [Between] at hbetween hnext
  rw [unclamped, h.reference, h.correction] at hclamp
  have hexpected : t.expectedDcTime b m.elapsed =
      .ok (BitVec.ofInt 64 (base.toNat + m.elapsed.ns + (c - d))) := by
    rw [expectedDcTime, h.reference, h.correction, i128Add_eq (by omega)]
    simp only [bind, Except.bind]
    rw [i128Add_eq (by omega), ← clampTime_eq hclamp]
    rfl
  have hdrift : (m.time - BitVec.ofInt 64 (base.toNat + m.elapsed.ns + (c - d))).toInt = d := by
    rw [toInt_sub_ofInt]
    · omega
    · simp only [i64Min, i64Max]
      omega
  have hcorrection : c - d + d / 2 ^ 4 = c - decay 4 d := by
    rw [decay]
    omega
  -- the correction stays between the first one and the offset
  have hadd : i64Add b (c - d) (d / 2 ^ 4) = .ok (c - decay 4 d) := by
    rw [← hcorrection]
    refine i64Add_eq ?_
    simp only [i64Min, i64Max]
    omega
  obtain ⟨count, hcycles⟩ : ∃ count, u64Add b t.cycleCount 1 = .ok count :=
    Build.result_returns_iff.mpr hcount
  refine ⟨{ t with
    driftCorrectionNs := c - decay 4 d
    lastDcTime := m.time
    cycleCount := count }, ?_, ⟨h.reference, rfl, h.between.decay⟩, fun hlt => ?_⟩
  · rw [DcSystemTime.update, hexpected]
    simp only [bind, Except.bind, hdrift, h.correction, hadd, hcycles]
    rfl
  · have hexact : u64Add b t.cycleCount 1 = .ok (t.cycleCount + 1) := Build.result_of_inRange hlt
    rw [hexact] at hcycles
    exact (Except.ok.inj hcycles).symm

/-! ## Runs -/

theorem neverClamped_cons (b : Build) (t : DcSystemTime) (m : Measurement) (ms : List Measurement) :
    NeverClamped b t (m :: ms) ↔
      (0 ≤ t.unclamped m.elapsed ∧ t.unclamped m.elapsed ≤ 2 ^ 64 - 1) ∧
        ∀ d t', t.update b m.elapsed m.time = .ok (d, t') → NeverClamped b t' ms := by
  constructor
  · intro h
    refine ⟨h [] m ms rfl [] t rfl, fun d t' hupdate before m' after heq ds t'' hrun => ?_⟩
    refine h (m :: before) m' after (by rw [heq, List.cons_append]) (d :: ds) t'' ?_
    rw [run, hupdate]
    simp only [bind, Except.bind, hrun]
    rfl
  · rintro ⟨hfirst, hrest⟩ before m' after heq ds t'' hrun
    cases before with
    | nil =>
      cases heq
      cases hrun
      exact hfirst
    | cons m before =>
      rw [List.cons_append] at heq
      cases heq
      rw [run] at hrun
      obtain ⟨⟨d, t'⟩, hupdate, hrun⟩ := bind_eq_ok.mp hrun
      obtain ⟨⟨ds', t₂⟩, hrun', heq⟩ := bind_eq_ok.mp hrun
      cases heq
      exact hrest d t' hupdate before m' after rfl ds' _ hrun'

/-- The drifts that a run reports decay step by step. -/
theorem Uncorrected.run_eq (h : t.Uncorrected base c first d) (hc : InI64 c)
    (hfirst : InI64 first) (hstart : InI64 (c - first)) {ms : List Measurement}
    (htimes : ∀ m ∈ ms, (m.time.toNat : Int) = base.toNat + m.elapsed.ns + c)
    (hclamp : NeverClamped b t ms) (hcounts : Counts b t ms) :
    ∃ t', t.run b ms = .ok ((List.range ms.length).map fun i => (decay 4)^[i] d, t') := by
  induction ms generalizing t d with
  | nil => exact ⟨t, rfl⟩
  | cons m ms ih =>
    obtain ⟨hhead, htail⟩ := (neverClamped_cons b t m ms).mp hclamp
    rw [Counts, List.length_cons] at hcounts
    obtain ⟨t₁, hupdate, hnext, hcount⟩ := h.update hc hfirst hstart (htimes m List.mem_cons_self)
      hhead fun hdebug => by have := hcounts hdebug; omega
    have hcounts' : Counts b t₁ ms := by
      intro hdebug
      have hlt := hcounts hdebug
      rw [hcount (by omega)]
      omega
    obtain ⟨t', hrun⟩ := ih hnext (fun m hm => htimes m (List.mem_cons_of_mem _ hm))
      (htail d t₁ hupdate) hcounts'
    refine ⟨t', ?_⟩
    rw [DcSystemTime.run, hupdate]
    simp only [bind, Except.bind, hrun]
    rw [List.length_cons, List.range_succ_eq_map, List.map_cons, List.map_map]
    rfl

/-- A run that returns has counted its updates within a `u64`. -/
theorem counts_of_run {ms : List Measurement} {r : List Int × DcSystemTime}
    (hcount : t.cycleCount < 2 ^ 64) (h : t.run b ms = .ok r) : Counts b t ms := by
  intro hdebug
  subst hdebug
  induction ms generalizing t r with
  | nil => exact hcount
  | cons m ms ih =>
    rw [run] at h
    obtain ⟨⟨d, t₁⟩, hupdate, h⟩ := bind_eq_ok.mp h
    obtain ⟨r', hrun, -⟩ := bind_eq_ok.mp h
    rw [DcSystemTime.update] at hupdate
    obtain ⟨expected, -, hupdate⟩ := bind_eq_ok.mp hupdate
    obtain ⟨correction, -, hupdate⟩ := bind_eq_ok.mp hupdate
    obtain ⟨count, hadd, hupdate⟩ := bind_eq_ok.mp hupdate
    obtain ⟨hlt, rfl⟩ := u64Add_debug.mp hadd
    cases hupdate
    have hrest : t.cycleCount + 1 + ms.length < 2 ^ 64 := ih hlt hrun
    rw [List.length_cons]
    omega

/-! ## Convergence -/

/-- The zone of the filter. -/
def InZone (d : Int) : Prop := 0 ≤ d ∧ d ≤ 15

theorem inZone_iff_settled (d : Int) : InZone d ↔ Settled 4 d := by
  rw [InZone, Settled]
  omega

/-- Drifts that come nearer to zero from one side, and are in the zone from the `n`-th on. -/
structure Converging (n : Nat) (ds : List Int) : Prop where
  oneSided : (∀ d ∈ ds, 0 ≤ d) ∨ ∀ d ∈ ds, d ≤ 0
  nearer : ds.Pairwise fun d d' => d'.natAbs ≤ d.natAbs
  enters : ∀ i : Fin ds.length, n ≤ i.val → InZone (ds.get i)
  stays : ds.Pairwise fun d d' => InZone d → InZone d'

/-- Decaying values converge, at a rate that does not depend on how many there are. -/
theorem exists_converging (d : Int) :
    ∃ n, ∀ length, Converging n ((List.range length).map fun i => (decay 4)^[i] d) := by
  obtain ⟨n, hn⟩ := exists_settled 4 d
  refine ⟨n, fun length => ⟨?_, ?_, ?_, ?_⟩⟩
  · -- all of them lie between zero and the first one
    rcases Int.le_total 0 d with hfirst | hfirst
    · left
      intro d' hmem
      obtain ⟨i, -, rfl⟩ := List.mem_map.mp hmem
      have hbetween := between_iterate_decay (k := 4) d i
      rw [Between] at hbetween
      omega
    · right
      intro d' hmem
      obtain ⟨i, -, rfl⟩ := List.mem_map.mp hmem
      have hbetween := between_iterate_decay (k := 4) d i
      rw [Between] at hbetween
      omega
  · apply List.pairwise_map.mpr
    apply List.pairwise_lt_range.imp
    intro i j hlt
    rw [iterate_decay_of_le (Nat.le_of_lt hlt)]
    exact natAbs_iterate_decay_le _ _
  · intro i hi
    rw [List.get_eq_getElem, List.getElem_map, List.getElem_range, inZone_iff_settled]
    exact hn _ hi
  · apply List.pairwise_map.mpr
    apply List.pairwise_lt_range.imp
    intro i j hlt hzone
    rw [inZone_iff_settled] at hzone ⊢
    rw [iterate_decay_of_le (Nat.le_of_lt hlt), iterate_decay_of_settled hzone]
    exact hzone

/-- From any state of the filter, against a clock with a constant offset, as long as neither the
expected time is clamped nor the first difference wraps: a run returns as long as it can count its
updates, and its drifts converge, whatever times elapse. -/
theorem drift_converges (t : DcSystemTime) (c : Int) (hcorrection : InI64 t.driftCorrectionNs)
    (hcount : t.cycleCount < 2 ^ 64) (hc : InI64 c)
    (hdifference : InI64 (c - t.driftCorrectionNs)) :
    ∃ n, ∀ (b : Build) (ms : List Measurement), Offset t c ms → NeverClamped b t ms →
      (Counts b t ms ↔ ∃ r, t.run b ms = .ok r) ∧
        ∀ ds t', t.run b ms = .ok (ds, t') → ds.length = ms.length ∧ Converging n ds := by
  obtain ⟨n, hn⟩ := exists_converging (c - t.driftCorrectionNs)
  refine ⟨n, fun b ms htimes hclamp => ?_⟩
  have hstart : t.Uncorrected t.dcTimeAtReference c (c - t.driftCorrectionNs)
      (c - t.driftCorrectionNs) := ⟨rfl, (Int.sub_sub_self c _).symm, between_self _⟩
  have hrun := fun hcounts : Counts b t ms =>
    hstart.run_eq hc hdifference ((Int.sub_sub_self c _).symm ▸ hcorrection) htimes hclamp hcounts
  refine ⟨⟨fun hcounts => ?_, fun ⟨_, hreturns⟩ => counts_of_run hcount hreturns⟩, ?_⟩
  · obtain ⟨t', heq⟩ := hrun hcounts
    exact ⟨_, heq⟩
  · intro ds t' hreturns
    obtain ⟨_, heq⟩ := hrun (counts_of_run hcount hreturns)
    rw [hreturns] at heq
    cases heq
    refine ⟨?_, hn ms.length⟩
    rw [List.length_map, List.length_range]

/-- A clock that is 40 ns behind: the filter reports -40, then -37. -/
theorem drift_converges_behind :
    let t := DcSystemTime.initializeAt 1000
    let ms : List Measurement := [⟨⟨10, by decide⟩, 970⟩, ⟨⟨20, by decide⟩, 980⟩]
    ∃ n ds t', t.run .debug ms = .ok (ds, t') ∧ ds = [-40, -37] ∧ Converging n ds := by
  intro t ms
  have hin : InI64 (-40) := ⟨by decide, by decide⟩
  obtain ⟨n, hn⟩ := drift_converges t (-40) ⟨by decide, by decide⟩ (by decide) hin hin
  have htimes : Offset t (-40) ms := by
    intro m hm
    rcases List.mem_pair.mp hm with rfl | rfl
    · rfl
    · rfl
  have hfirst : t.update .debug ⟨10, by decide⟩ 970 = .ok (-40, ⟨1000, -3, 970, 1⟩) := by decide
  have hclamp : NeverClamped .debug t ms := by
    apply (neverClamped_cons ..).mpr
    refine ⟨by decide, fun d t' hupdate => ?_⟩
    rw [hfirst] at hupdate
    cases hupdate
    apply (neverClamped_cons ..).mpr
    refine ⟨by decide, fun d t' _ before m after heq => ?_⟩
    simp at heq
  have hrun : t.run .debug ms = .ok ([-40, -37], ⟨1000, -6, 980, 2⟩) := by decide
  exact ⟨n, _, _, hrun, rfl, ((hn .debug ms htimes hclamp).2 _ _ hrun).2⟩

end DcSystemTime

end VirtualPlc.Fieldbus
