import VirtualPlc.Control.Streak
import VirtualPlc.Fieldbus.MasterRuns

/-!
# The supervision of the working counter

The master counts the mismatches of the working counter in a row. The counter goes on over an
initialisation (`Watched.Counted`), so the threshold is reached early after one that follows
mismatches.
-/

set_option autoImplicit false

namespace VirtualPlc.Fieldbus

open VirtualPlc.Control VirtualPlc.Runtime VirtualPlc.Word Control.Streak EthercatMaster

/-- The master, with the results of the completed exchanges: `true` where the working counter was
the expected one. -/
structure Watched where
  master : EthercatMaster
  results : List Bool
  /-- Those since the most recent initialisation. -/
  recent : List Bool

namespace Watched

/-- A new master. -/
def start (config : EthercatConfig) : Watched := ⟨.withTransport config, [], []⟩

/-- The result that an exchange adds, if it completes. -/
def completed (m : EthercatMaster) (answers : ExchangeAnswers) : List Bool :=
  if m.exchanging then
    match answers.exchange with
    | .ok wkc => [wkc = m.processImage.expectedWkc]
    | .error _ => []
  else []

/-- The results that an operation adds. -/
def added (m : EthercatMaster) : MasterOperation → List Bool
  | .exchange answers => completed m answers
  | _ => []

/-- An initialisation begins. Each of them scans for slaves. -/
def restarts : MasterOperation → Bool
  | .init _ | .scanSlaves _ => true
  | _ => false

/-- One operation. -/
def step (b : Build) (w : Watched) (op : MasterOperation) : Except Failure Watched := do
  let master ← op.apply b w.master
  return ⟨master, w.results ++ added w.master op,
    if restarts op then [] else w.recent ++ added w.master op⟩

/-- A new master after some operations. -/
def run (b : Build) (config : EthercatConfig) (ops : List MasterOperation) :
    Except Failure Watched :=
  ops.foldlM (step b) (start config)

variable {b : Build} {config : EthercatConfig} {w : Watched} {answers : ExchangeAnswers}

theorem run_concat (b : Build) (config : EthercatConfig) (ops : List MasterOperation)
    (op : MasterOperation) :
    run b config (ops ++ [op]) = (run b config ops >>= fun w => step b w op) :=
  foldlM_concat _ _ _ _

theorem run_concat_ok {ops : List MasterOperation} {op : MasterOperation} {w' : Watched}
    (h : run b config (ops ++ [op]) = .ok w') :
    ∃ w, run b config ops = .ok w ∧ step b w op = .ok w' :=
  foldlM_concat_eq_ok.mp h

/-- Watching does not change the run. -/
theorem run_master (b : Build) (config : EthercatConfig) (ops : List MasterOperation) :
    (run b config ops).map (·.master) = EthercatMaster.run b config ops := by
  induction ops using List.reverseRecOn with
  | nil => rfl
  | append_singleton ops op ih =>
    rw [EthercatMaster.run_concat, ← ih, run_concat]
    cases hrun : run b config ops with
    | error e => rfl
    | ok w =>
      show (step b w op).map (·.master) = op.apply b w.master
      rw [step]
      cases op.apply b w.master with
      | error e => rfl
      | ok m => rfl

/-! ## The counter -/

/-- What the master's counter says: the mismatches in a row, over all initialisations. -/
structure Counted (config : EthercatConfig) (w : Watched) : Prop where
  config_eq : w.master.config = config
  errors : w.master.consecutiveWkcErrors = BitVec.ofNat 32 (lastFailures w.results)

theorem completed_ok {m : EthercatMaster} {wkc : BitVec 16} {ok : Bool}
    (hstate : m.exchanging = true) (hanswer : answers.exchange = .ok wkc)
    (hok : decide (wkc = m.processImage.expectedWkc) = ok) : completed m answers = [ok] := by
  rw [completed, if_pos hstate, hanswer, ← hok]

theorem completed_error {m : EthercatMaster} {e : PlcError}
    (hanswer : answers.exchange = .error e) :
    completed m answers = [] := by
  rw [completed, hanswer]
  exact ite_self _

/-- The counter after a mismatch. -/
theorem Counted.mismatch {errors : BitVec 32} (h : Counted config w)
    (herrors : u32Add b w.master.consecutiveWkcErrors 1 = .ok errors) :
    errors = BitVec.ofNat 32 (lastFailures (w.results ++ [false])) := by
  rw [u32Add_ok herrors, h.errors, lastFailures_concat_false, BitVec.ofNat_add]
  rfl

/-- The parts of the other operations leave the counter alone. -/
theorem counter_reaches {m m' : EthercatMaster} (h : Reaches m m') :
    m'.config = m.config ∧ m'.consecutiveWkcErrors = m.consecutiveWkcErrors := by
  induction h with
  | refl => exact ⟨rfl, rfl⟩
  | tail _ hpart ih =>
    cases hpart with
    | called | commanded | left | loaded => exact ih

/-- An exchange keeps the counter in step with the results. -/
theorem Counted.exchange {r : PlcResult Unit × EthercatMaster} (h : Counted config w)
    (hr : w.master.exchange b answers = .ok r) :
    r.2.config = config ∧ r.2.consecutiveWkcErrors =
      BitVec.ofNat 32 (lastFailures (w.results ++ completed w.master answers)) := by
  cases EthercatMaster.exchange_cases hr with
  | refused hstate heq =>
    rw [heq, completed, hstate, if_neg Bool.false_ne_true, List.append_nil]
    exact ⟨h.config_eq, h.errors⟩
  | failed hstate e hanswer heq =>
    rw [heq, completed_error hanswer, List.append_nil]
    exact ⟨h.config_eq, h.errors⟩
  | tripped hstate wkc hanswer hwkc errors herrors _ heq =>
    rw [heq, completed_ok hstate hanswer (decide_eq_false hwkc)]
    exact ⟨h.config_eq, h.mismatch herrors⟩
  | mismatched hstate wkc hanswer hwkc errors herrors _ _ hclock =>
    rw [hclock.config, hclock.errors, completed_ok hstate hanswer (decide_eq_false hwkc)]
    exact ⟨h.config_eq, h.mismatch herrors⟩
  | matched hstate wkc hanswer hwkc _ hclock =>
    rw [hclock.config, hclock.errors, completed_ok hstate hanswer (decide_eq_true hwkc),
      lastFailures_concat_true]
    exact ⟨h.config_eq, rfl⟩

theorem Counted.step {w' : Watched} {op : MasterOperation} (h : Counted config w)
    (hstep : step b w op = .ok w') : Counted config w' := by
  obtain ⟨m, hop, hret⟩ := bind_eq_ok.1 hstep
  cases hret
  by_cases hexchange : ∃ answers, op = .exchange answers
  · obtain ⟨answers, rfl⟩ := hexchange
    obtain ⟨r, hr, hret⟩ := bind_eq_ok.1 hop
    cases hret
    obtain ⟨hconfig, herrors⟩ := h.exchange hr
    exact ⟨hconfig, herrors⟩
  · have hother : ∀ answers, op ≠ .exchange answers := fun answers heq => hexchange ⟨answers, heq⟩
    obtain ⟨hconfig, herrors⟩ := counter_reaches (EthercatMaster.reaches_apply hop hother)
    have hadded : added w.master op = [] := by
      cases op with
      | exchange answers => exact absurd rfl (hother answers)
      | _ => rfl
    refine ⟨hconfig.trans h.config_eq, ?_⟩
    simp only [hadded, List.append_nil]
    exact herrors.trans h.errors

/-- After any operations the counter is the number of mismatches in a row, whatever came between
them. -/
theorem counted_run {ops : List MasterOperation} (h : run b config ops = .ok w) :
    Counted config w := by
  induction ops using List.reverseRecOn generalizing w with
  | nil =>
    cases h
    exact ⟨rfl, rfl⟩
  | append_singleton ops op ih =>
    obtain ⟨w', hw', hstep⟩ := run_concat_ok h
    exact (ih hw').step hstep

/-! ## The threshold -/

/-- The exchange reports the threshold itself, not an error of the transport. -/
def Trips (answers : ExchangeAnswers) (r : PlcResult Unit × EthercatMaster) : Prop :=
  (∃ wkc, answers.exchange = .ok wkc) ∧
    ∃ errors threshold, r.1 = .error (.wkcThresholdExceeded errors threshold)

/-- The exchange completes, and the last results since the most recent initialisation, as many as
the threshold says, are mismatches. -/
def Due (w : Watched) (answers : ExchangeAnswers) (threshold : BitVec 32) : Prop :=
  completed w.master answers ≠ [] ∧
    List.replicate threshold.toNat false <:+ w.recent ++ completed w.master answers

/-- With one more mismatch, all those in a row reach the threshold, counted with 32 bits, exactly if
those since the most recent initialisation do. -/
def CountsAlike (w : Watched) (threshold : BitVec 32) : Prop :=
  threshold.toNat ≤ (lastFailures w.results + 1) % 2 ^ 32 ↔
    threshold.toNat ≤ lastFailures w.recent + 1

/-- Every exchange reports the threshold exactly when it is due. -/
def Supervised (b : Build) (config : EthercatConfig) (ops : List MasterOperation) : Prop :=
  ∀ front answers back w r, ops = front ++ .exchange answers :: back → run b config front = .ok w →
    w.master.exchange b answers = .ok r → (Trips answers r ↔ Due w answers config.wkcErrorThreshold)

theorem Counted.reached_iff {errors : BitVec 32} (hpos : 0 < config.wkcErrorThreshold)
    (h : Counted config w) (herrors : u32Add b w.master.consecutiveWkcErrors 1 = .ok errors) :
    w.master.thresholdReached errors = true ↔
      config.wkcErrorThreshold.toNat ≤ (lastFailures w.results + 1) % 2 ^ 32 := by
  rw [EthercatMaster.thresholdReached, h.config_eq, h.mismatch herrors, lastFailures_concat_false,
    Bool.and_eq_true, decide_eq_true_iff, decide_eq_true_iff, and_iff_right hpos, BitVec.le_def,
    BitVec.toNat_ofNat]

theorem due_iff {ok : Bool} {threshold : BitVec 32}
    (hcompleted : completed w.master answers = [ok]) :
    Due w answers threshold ↔ threshold.toNat ≤ lastFailures (w.recent ++ [ok]) := by
  rw [Due, hcompleted, replicate_suffix_iff]
  simp

/-- One exchange: only a mismatch is judged by the counter. -/
theorem Counted.trips_iff {r : PlcResult Unit × EthercatMaster}
    (hpos : 0 < config.wkcErrorThreshold)
    (h : Counted config w) (hr : w.master.exchange b answers = .ok r) :
    (Trips answers r ↔ Due w answers config.wkcErrorThreshold) ↔
      (completed w.master answers = [false] → CountsAlike w config.wkcErrorThreshold) := by
  have hnone : completed w.master answers = [] →
      ¬ Due w answers config.wkcErrorThreshold := fun hnil hdue => hdue.1 hnil
  cases EthercatMaster.exchange_cases hr with
  | refused hstate heq =>
    have hnil : completed w.master answers = [] := by
      rw [completed, hstate, if_neg Bool.false_ne_true]
    rw [iff_false_right (hnone hnil), hnil, heq]
    simp [Trips]
  | failed hstate e hanswer heq =>
    have hnil := completed_error (m := w.master) hanswer
    rw [iff_false_right (hnone hnil), hnil]
    simp [Trips, hanswer]
  | tripped hstate wkc hanswer hwkc errors herrors hreached heq =>
    have hcompleted := completed_ok hstate hanswer (decide_eq_false hwkc)
    have htrips : Trips answers r := ⟨⟨wkc, hanswer⟩, errors, _, by rw [heq]⟩
    rw [h.reached_iff hpos herrors] at hreached
    rw [iff_true_left htrips, due_iff hcompleted, lastFailures_concat_false, hcompleted,
      imp_iff_right rfl, CountsAlike, iff_true_left hreached]
  | mismatched hstate wkc hanswer hwkc errors herrors hreached hok _ =>
    have hcompleted := completed_ok hstate hanswer (decide_eq_false hwkc)
    have htrips : ¬ Trips answers r := by
      rintro ⟨-, n, threshold, herror⟩
      rw [hok] at herror
      cases herror
    rw [← Bool.not_eq_true, h.reached_iff hpos herrors] at hreached
    rw [iff_false_left htrips, due_iff hcompleted, lastFailures_concat_false, hcompleted,
      imp_iff_right rfl, CountsAlike, iff_false_left hreached]
  | matched hstate wkc hanswer hwkc hok _ =>
    have hcompleted := completed_ok hstate hanswer (decide_eq_true hwkc)
    have htrips : ¬ Trips answers r := by
      rintro ⟨-, n, threshold, herror⟩
      rw [hok] at herror
      cases herror
    rw [hcompleted, due_iff hcompleted, lastFailures_concat_true]
    have hlt : 0 < config.wkcErrorThreshold.toNat := hpos
    simp [htrips, Nat.not_le.mpr hlt]

/-- Every exchange of a run that returns has returned. -/
theorem exchange_returns {front back : List MasterOperation} {m : EthercatMaster}
    (h : EthercatMaster.run b config (front ++ .exchange answers :: back) = .ok m)
    (hw : run b config front = .ok w) : ∃ r, w.master.exchange b answers = .ok r := by
  have hmaster : EthercatMaster.run b config front = .ok w.master := by
    rw [← run_master, hw]
    rfl
  rw [EthercatMaster.run_append, hmaster] at h
  obtain ⟨m', hm', hrest⟩ := bind_eq_ok.1 h
  cases hm'
  obtain ⟨m'', hop, -⟩ := bind_eq_ok.1 hrest
  obtain ⟨r, hr, -⟩ := bind_eq_ok.1 hop
  exact ⟨r, hr⟩

/-- In every run, the threshold is reported exactly when it is due if and only if, at each mismatch,
the mismatches of earlier initialisations make no difference. -/
theorem supervised_iff {ops : List MasterOperation} {m : EthercatMaster}
    (hpos : 0 < config.wkcErrorThreshold) (h : EthercatMaster.run b config ops = .ok m) :
    Supervised b config ops ↔
      ∀ front answers back w, ops = front ++ .exchange answers :: back →
        run b config front = .ok w →
        completed w.master answers = [false] → CountsAlike w config.wkcErrorThreshold := by
  constructor
  · intro hsupervised front answers back w hsplit hw
    obtain ⟨r, hr⟩ := exchange_returns (hsplit ▸ h) hw
    exact ((counted_run hw).trips_iff hpos hr).1 (hsupervised front answers back w r hsplit hw hr)
  · intro halike front answers back w r hsplit hw hr
    exact ((counted_run hw).trips_iff hpos hr).2 (halike front answers back w hsplit hw)

/-- Two mismatches, a restart and a third mismatch: the threshold of three is reported. -/
theorem supervised_fails : ¬ Supervised .release threeErrors [.init twoByteBus,
    .exchange (wkcAnswer 0), .exchange (wkcAnswer 0), .shutdown ⟨.ok (), .ok (), .ok (), .ok ()⟩,
    .init twoByteBus, .exchange (wkcAnswer 0)] := by
  intro h
  have hrun : (run .release threeErrors [.init twoByteBus, .exchange (wkcAnswer 0),
      .exchange (wkcAnswer 0), .shutdown ⟨.ok (), .ok (), .ok (), .ok ()⟩, .init twoByteBus]).map
        (fun w => (w.recent, completed w.master (wkcAnswer 0),
          (w.master.exchange .release (wkcAnswer 0)).map (·.1))) =
      .ok ([], [false], .ok (.error (.wkcThresholdExceeded 3 3))) := by
    decide
  obtain ⟨w, hw, hseen⟩ := map_eq_ok.1 hrun
  obtain ⟨hrecent, hseen⟩ := Prod.mk.inj hseen
  obtain ⟨hcompleted, hresult⟩ := Prod.mk.inj hseen
  obtain ⟨r, hr, herror⟩ := map_eq_ok.1 hresult
  have hdue := (h _ _ [] w r rfl hw hr).1 ⟨⟨0, rfl⟩, 3, 3, herror⟩
  rw [due_iff hcompleted, hrecent] at hdue
  exact absurd hdue (by decide)

/-- A first mismatch after two initialisations is not due, and is not reported. -/
theorem supervised_restart : (0 : BitVec 32) < threeErrors.wkcErrorThreshold ∧
    Supervised .release threeErrors [.init twoByteBus, .init twoByteBus,
      .exchange (wkcAnswer 0)] := by
  have hrun : (EthercatMaster.run .release threeErrors
      [.init twoByteBus, .init twoByteBus, .exchange (wkcAnswer 0)]).map (·.state) = .ok .op := by
    decide
  obtain ⟨m, hm, -⟩ := map_eq_ok.1 hrun
  refine ⟨by decide, (supervised_iff (by decide) hm).2 fun front answers back w hsplit hw _ => ?_⟩
  have hfront : front = [.init twoByteBus, .init twoByteBus] := by
    rcases front with _ | ⟨first, _ | ⟨second, _ | ⟨third, front⟩⟩⟩
    · cases hsplit
    · cases hsplit
    · cases hsplit
      rfl
    · simp at hsplit
  have hseen : (run .release threeErrors [.init twoByteBus, .init twoByteBus]).map
      (fun w => (w.results, w.recent)) = .ok ([], []) := by
    decide
  rw [hfront] at hw
  rw [hw] at hseen
  obtain ⟨hresults, hrecent⟩ := Prod.mk.inj (Except.ok.inj hseen)
  rw [CountsAlike, hresults, hrecent]
  decide

end Watched

end VirtualPlc.Fieldbus
