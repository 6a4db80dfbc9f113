import VirtualPlc.Fieldbus.WorkingCounter

/-!
# Overflow of the working-counter errors

The increment of the master's counter overflows exactly at the last of `2 ^ 32` mismatches in a row
(`Watched.errorsFit_iff`). With a threshold the master faults before, and each initialisation lets
it count one mismatch more (`Watched.Bounded`). Without one nothing ends a row
(`Watched.Unnoticed`).
-/

set_option autoImplicit false

namespace VirtualPlc.Fieldbus

open VirtualPlc.Control VirtualPlc.Runtime VirtualPlc.Word Control.Streak EthercatMaster

/-- Number of values of a counter. -/
def u32Card : Nat := 2 ^ 32

namespace Watched

variable {b : Build} {config : EthercatConfig} {w w' : Watched} {answers : ExchangeAnswers}
  {ops : List MasterOperation} {op : MasterOperation}

/-- After some operations an exchange increments the counter. -/
structure Increments (b : Build) (config : EthercatConfig) (front : List MasterOperation)
    (answers : ExchangeAnswers) (w : Watched) : Prop where
  runs : run b config front = .ok w
  mismatch : completed w.master answers = [false]

/-- No increment of the counter overflows. -/
def ErrorsFit (b : Build) (config : EthercatConfig) (ops : List MasterOperation) : Prop :=
  ∀ front answers back w, ops = front ++ .exchange answers :: back →
    Increments b config front answers w → w.master.consecutiveWkcErrors.toNat + 1 < u32Card

/-- No mismatch is the last of `2 ^ 32` in a row. -/
def MismatchesShort (b : Build) (config : EthercatConfig) (ops : List MasterOperation) : Prop :=
  ∀ front answers back w, ops = front ++ .exchange answers :: back →
    Increments b config front answers w → ¬ List.replicate u32Card false <:+ w.results ++ [false]

theorem not_suffix_iff :
    ¬ List.replicate u32Card false <:+ w.results ++ [false] ↔
      lastFailures w.results + 1 < u32Card := by
  rw [replicate_suffix_iff, lastFailures_concat_false, Nat.not_le]

theorem counter_eq (h : run b config ops = .ok w) (hshort : lastFailures w.results < u32Card) :
    w.master.consecutiveWkcErrors.toNat = lastFailures w.results := by
  rw [(counted_run h).errors, BitVec.toNat_ofNat]
  exact Nat.mod_eq_of_lt hshort

theorem step_results (h : step b w op = .ok w') :
    op.apply b w.master = .ok w'.master ∧ w'.results = w.results ++ added w.master op := by
  obtain ⟨m, hop, hret⟩ := bind_eq_ok.mp h
  cases hret
  exact ⟨hop, rfl⟩

theorem completed_cases (m : EthercatMaster) (answers : ExchangeAnswers) :
    completed m answers = [] ∨ ∃ ok, completed m answers = [ok] := by
  rw [completed]
  split
  · cases answers.exchange with
    | ok wkc => exact .inr ⟨_, rfl⟩
    | error e => exact .inl rfl
  · exact .inl rfl

/-- Only a mismatch, which an exchange counts, makes the row longer. -/
theorem lastFailures_step (h : step b w op = .ok w') :
    (∃ answers, op = .exchange answers ∧ completed w.master answers = [false] ∧
        lastFailures w'.results = lastFailures w.results + 1) ∨
      lastFailures w'.results ≤ lastFailures w.results := by
  obtain ⟨-, hresults⟩ := step_results h
  rw [hresults]
  cases op with
  | exchange answers =>
    change _ ∨ lastFailures (w.results ++ completed w.master answers) ≤ _
    rcases completed_cases w.master answers with hnil | ⟨ok, hone⟩
    · right
      rw [hnil, List.append_nil]
    · cases ok with
      | true =>
        right
        rw [hone, lastFailures_concat_true]
        exact Nat.zero_le _
      | false =>
        left
        refine ⟨answers, rfl, hone, ?_⟩
        change lastFailures (w.results ++ completed w.master answers) = _
        rw [hone, lastFailures_concat_false]
  | _ => exact .inr (congrArg lastFailures (List.append_nil w.results)).le

/-- While no increment overflows, the rows stay short. -/
theorem ErrorsFit.short {front rest : List MasterOperation} (h : ErrorsFit b config ops)
    (hsplit : ops = front ++ rest) (hrun : run b config front = .ok w) :
    lastFailures w.results < u32Card := by
  induction front using List.reverseRecOn generalizing w rest with
  | nil =>
    cases hrun
    exact Nat.two_pow_pos 32
  | append_singleton front op ih =>
    obtain ⟨w₁, hrun₁, hstep⟩ := run_concat_ok hrun
    rw [List.append_assoc] at hsplit
    have hbefore := ih hsplit hrun₁
    rcases lastFailures_step hstep with ⟨answers, rfl, hmismatch, hlonger⟩ | hle
    · have hfits := h front answers rest w₁ hsplit ⟨hrun₁, hmismatch⟩
      rw [counter_eq hrun₁ hbefore] at hfits
      rw [hlonger]
      exact hfits
    · exact Nat.lt_of_le_of_lt hle hbefore

/-- The counter does not overflow exactly if no row of mismatches is that long. -/
theorem errorsFit_iff (b : Build) (config : EthercatConfig) (ops : List MasterOperation) :
    ErrorsFit b config ops ↔ MismatchesShort b config ops := by
  constructor
  · intro h front answers back w hsplit hinc
    have hbefore := h.short hsplit hinc.runs
    have hfits := h front answers back w hsplit hinc
    rw [not_suffix_iff, ← counter_eq hinc.runs hbefore]
    exact hfits
  · intro h front answers back w hsplit hinc
    have hshort := not_suffix_iff.mp (h front answers back w hsplit hinc)
    rw [counter_eq hinc.runs (Nat.lt_of_succ_lt hshort)]
    exact hshort

/-! ## With a threshold -/

/-- The master exchanges no data before another initialisation. -/
def Closed (m : EthercatMaster) : Prop := m.state = .fault ∨ m.state = .offline

theorem Closed.not_exchanging {m : EthercatMaster} (h : Closed m) : m.exchanging = false := by
  rw [exchanging]
  rcases h with hstate | hstate <;> rw [hstate] <;> rfl

theorem Closed.ne {m : EthercatMaster} (h : Closed m) {source : MasterState}
    (hsource : source ≠ .fault ∧ source ≠ .offline) : m.state ≠ source := by
  rintro rfl
  rcases h with hstate | hstate
  · exact hsource.1 hstate
  · exact hsource.2 hstate

theorem Closed.advance {m : EthercatMaster} (h : Closed m) {source target : MasterState}
    {action : String} {command : SlaveState} (answer : PlcResult Unit)
    (hsource : source ≠ .fault ∧ source ≠ .offline) :
    Closed (EthercatMaster.advance source action command target m answer).2 := by
  unfold EthercatMaster.advance
  rw [if_pos (h.ne hsource)]
  exact h

theorem Closed.stepDown {m : EthercatMaster} (h : Closed m) {source target : MasterState}
    {command : SlaveState} (answer : PlcResult Unit)
    (hsource : source ≠ .fault ∧ source ≠ .offline) :
    EthercatMaster.stepDown source command target m answer = (.ok (), m) := by
  unfold EthercatMaster.stepDown
  exact if_neg (h.ne hsource)

theorem Closed.configureDcSlaves {m : EthercatMaster} (h : Closed m)
    (answer : DcSlaveConfig → PlcResult Unit) (slaves : List DcSlaveConfig) :
    Closed (EthercatMaster.configureDcSlaves answer m slaves).2 := by
  induction slaves generalizing m with
  | nil => exact h
  | cons slave rest ih =>
    rw [EthercatMaster.configureDcSlaves]
    split
    · split
      · exact h
      · exact ih h
    · exact ih h

theorem Closed.shutdown {m : EthercatMaster} (h : Closed m) (answers : ShutdownAnswers) :
    Closed (m.shutdown answers).2 := by
  rw [EthercatMaster.shutdown, h.stepDown answers.safeOp (by decide)]
  change Closed (andThen (m.stepDown .safeOp .preOp .preOp answers.preOp) _).2
  rw [h.stepDown answers.preOp (by decide)]
  change Closed (andThen (m.stepDown .preOp .init .init answers.init) _).2
  rw [h.stepDown answers.init (by decide)]
  change Closed (m.closeTransport answers.close).2
  unfold closeTransport
  split
  · exact h
  · exact .inr rfl

/-- Only an initialisation leads out of a fault, by way of a scan. -/
theorem Closed.apply {m m' : EthercatMaster} (h : Closed m) (hop : op.apply b m = .ok m')
    (hrestarts : restarts op = false) : Closed m' := by
  cases op with
  | init answers | scanSlaves answer => cases hrestarts
  | configureSlaves answer =>
    cases hop
    change Closed (EthercatMaster.advance .init "configure" .preOp .preOp m answer).2
    exact h.advance answer (by decide)
  | enterSafeOp answer =>
    cases hop
    change Closed (EthercatMaster.advance .preOp "enter SAFE_OP" .safeOp .safeOp m answer).2
    exact h.advance answer (by decide)
  | enterOp answer =>
    cases hop
    change Closed (EthercatMaster.advance .safeOp "enter OP" .op .op m answer).2
    exact h.advance answer (by decide)
  | configureDc dcTime answer =>
    cases hop
    rw [configureDc]
    split
    · exact h
    · cases dcTime with
      | error e => exact h
      | ok initialTime =>
        dsimp only
        apply Closed.configureDcSlaves
        exact h
  | exchange answers =>
    obtain ⟨r, hr, hret⟩ := bind_eq_ok.mp hop
    cases hret
    -- a closed master refuses to exchange
    rw [exchange, h.not_exchanging] at hr
    cases hr
    exact h
  | sdoRead request answer =>
    cases hop
    rw [sdoRead]
    split <;> exact h
  | sdoWrite request answer =>
    cases hop
    rw [sdoWrite]
    split
    · exact h
    · split <;> exact h
  | shutdown answers =>
    cases hop
    exact h.shutdown answers

/-- The mismatches in a row after so many initialisations. A master that is not closed can count
one more before it faults. -/
structure Bounded (config : EthercatConfig) (starts : Nat) (w : Watched) : Prop where
  all : lastFailures w.results ≤ config.wkcErrorThreshold.toNat + starts
  live : Closed w.master ∨ lastFailures w.results + 1 ≤ config.wkcErrorThreshold.toNat + starts

variable {starts : Nat}

theorem Bounded.room (h : Bounded config starts w) (hstate : w.master.exchanging = true) :
    lastFailures w.results + 1 ≤ config.wkcErrorThreshold.toNat + starts := by
  apply h.live.resolve_left
  intro hclosed
  rw [hclosed.not_exchanging] at hstate
  cases hstate

theorem Bounded.exchange {r : PlcResult Unit × EthercatMaster} (h : Bounded config starts w)
    (hcounted : Counted config w) (hpos : 0 < config.wkcErrorThreshold)
    (hcard : config.wkcErrorThreshold.toNat + starts < 2 ^ 32)
    (hr : w.master.exchange b answers = .ok r) (hmaster : w'.master = r.2)
    (hresults : w'.results = w.results ++ completed w.master answers) :
    Bounded config starts w' := by
  have hthreshold : 0 < config.wkcErrorThreshold.toNat := hpos
  cases EthercatMaster.exchange_cases hr with
  | refused hstate heq =>
    have hnil : completed w.master answers = [] := by
      rw [completed, hstate, if_neg Bool.false_ne_true]
    rw [hnil, List.append_nil] at hresults
    rw [heq] at hmaster
    exact ⟨hresults ▸ h.all, hmaster ▸ hresults ▸ h.live⟩
  | failed hstate e hanswer heq =>
    rw [completed_error hanswer, List.append_nil] at hresults
    exact ⟨hresults ▸ h.all, .inr (hresults ▸ h.room hstate)⟩
  | tripped hstate wkc hanswer hwkc errors herrors hreached heq =>
    have hroom := h.room hstate
    rw [completed_ok hstate hanswer (decide_eq_false hwkc)] at hresults
    have hone : lastFailures w'.results = lastFailures w.results + 1 := by
      rw [hresults, lastFailures_concat_false]
    -- the last mismatch that fits closes the master
    exact ⟨hone ▸ hroom, .inl (.inl (by rw [hmaster, heq]))⟩
  | mismatched hstate wkc hanswer hwkc errors herrors hreached hok hclock =>
    have hroom := h.room hstate
    -- the threshold has not been reached, so this is not the last mismatch that fits
    rw [← Bool.not_eq_true, hcounted.reached_iff hpos herrors,
      Nat.mod_eq_of_lt (Nat.lt_of_le_of_lt hroom hcard)] at hreached
    rw [completed_ok hstate hanswer (decide_eq_false hwkc)] at hresults
    have hone : lastFailures w'.results = lastFailures w.results + 1 := by
      rw [hresults, lastFailures_concat_false]
    exact ⟨by omega, .inr (by omega)⟩
  | matched hstate wkc hanswer hwkc hok hclock =>
    rw [completed_ok hstate hanswer (decide_eq_true hwkc)] at hresults
    have hzero : lastFailures w'.results = 0 := by
      rw [hresults, lastFailures_concat_true]
    exact ⟨by omega, .inr (by omega)⟩

theorem Bounded.step (h : Bounded config starts w) (hcounted : Counted config w)
    (hpos : 0 < config.wkcErrorThreshold)
    (hcard : config.wkcErrorThreshold.toNat + starts < 2 ^ 32) (hstep : step b w op = .ok w') :
    Bounded config (starts + if restarts op then 1 else 0) w' := by
  obtain ⟨hop, hresults⟩ := step_results hstep
  by_cases hexchange : ∃ answers, op = .exchange answers
  · obtain ⟨answers, rfl⟩ := hexchange
    obtain ⟨r, hr, hret⟩ := bind_eq_ok.mp hop
    exact h.exchange hcounted hpos hcard hr (Except.ok.inj hret).symm hresults
  · have hnone : added w.master op = [] := by
      cases op with
      | exchange answers => exact absurd ⟨answers, rfl⟩ hexchange
      | _ => rfl
    rw [hnone, List.append_nil] at hresults
    have hall := h.all
    cases hrestarts : restarts op with
    | true =>
      -- the bound grows by one, which leaves room for another mismatch
      rw [if_pos rfl]
      exact ⟨by rw [hresults]; omega, .inr (by rw [hresults]; omega)⟩
    | false =>
      rw [if_neg Bool.false_ne_true, Nat.add_zero]
      refine ⟨hresults ▸ hall, ?_⟩
      rcases h.live with hclosed | hroom
      · exact .inl (hclosed.apply hop hrestarts)
      · exact .inr (hresults ▸ hroom)

/-- After any operations the mismatches in a row are at most the threshold and one for each
initialisation. -/
theorem bounded_run (hpos : 0 < config.wkcErrorThreshold)
    (hcard : config.wkcErrorThreshold.toNat + ops.countP restarts < 2 ^ 32)
    (h : run b config ops = .ok w) : Bounded config (ops.countP restarts) w := by
  induction ops using List.reverseRecOn generalizing w with
  | nil =>
    cases h
    exact ⟨Nat.zero_le _, .inl (.inr rfl)⟩
  | append_singleton ops op ih =>
    obtain ⟨w₁, hrun, hstep⟩ := run_concat_ok h
    rw [List.countP_append, List.countP_singleton] at hcard ⊢
    have hbefore := ih (by omega) hrun
    exact hbefore.step (counted_run hrun) hpos (by omega) hstep

/-- With a threshold it takes almost `2 ^ 32` initialisations to overflow the counter. -/
theorem errorsFit_of_threshold (b : Build) (config : EthercatConfig) (ops : List MasterOperation)
    (hpos : 0 < config.wkcErrorThreshold)
    (hcard : config.wkcErrorThreshold.toNat + ops.countP restarts < 2 ^ 32) :
    ErrorsFit b config ops := by
  intro front answers back w hsplit hinc
  have hfewer : front.countP restarts ≤ ops.countP restarts := by
    rw [hsplit, List.countP_append]
    exact Nat.le_add_right _ _
  have hbounded := bounded_run hpos (by omega) hinc.runs
  -- a master that exchanges has room for one more
  have hstate : w.master.exchanging = true := by
    cases hexchanging : w.master.exchanging with
    | true => rfl
    | false =>
      have hnone := hinc.mismatch
      rw [completed, hexchanging, if_neg Bool.false_ne_true] at hnone
      cases hnone
  have hroom := hbounded.room hstate
  rw [counter_eq hinc.runs (by rw [u32Card]; omega), u32Card]
  omega

/-! ## Without a threshold -/

/-- Mismatches that no threshold stops. -/
def unlimited : EthercatConfig := { threeErrors with wkcErrorThreshold := 0 }

/-- A small bus that answers every exchange with a wrong working counter. -/
def mismatches (n : Nat) : List MasterOperation :=
  .init twoByteBus :: List.replicate n (.exchange (wkcAnswer 0))

/-- The master after `n` of these exchanges. -/
structure Unnoticed (n : Nat) (w : Watched) : Prop where
  exchanging : w.master.exchanging = true
  config : w.master.config = unlimited
  expected : (0 : BitVec 16) ≠ w.master.processImage.expectedWkc
  clocks : w.master.dc.active = false
  results : w.results = List.replicate n false

theorem Unnoticed.completed {n : Nat} (h : Unnoticed n w) :
    completed w.master (wkcAnswer 0) = [false] :=
  completed_ok h.exchanging rfl (decide_eq_false h.expected)

/-- Without a threshold the master goes on. -/
theorem Unnoticed.step {n : Nat} (h : Unnoticed n w) :
    ∃ w', step .release w (.exchange (wkcAnswer 0)) = .ok w' ∧ Unnoticed (n + 1) w' := by
  let errors := w.master.consecutiveWkcErrors + 1
  let next := ((w.master.exchanged (wkcAnswer 0)).countCycle 0).mismatched errors
  have hunreached : next.thresholdReached errors = false := by
    change (decide (0 < w.master.config.wkcErrorThreshold) && _) = false
    rw [h.config]
    rfl
  have hexchange : w.master.exchange .release (wkcAnswer 0) = .ok (.ok (), next) := by
    have hactive : next.dc.active = false := h.clocks
    rw [EthercatMaster.exchange, h.exchanging]
    change (if (0 : BitVec 16) ≠ w.master.processImage.expectedWkc then _ else _) = _
    rw [if_pos h.expected]
    have hadd : u32Add .release w.master.consecutiveWkcErrors 1 = .ok errors := ite_self _
    change (u32Add .release w.master.consecutiveWkcErrors 1 >>= _) = _
    rw [hadd]
    change (if next.thresholdReached errors then _ else next.updateDc .release (wkcAnswer 0)) = _
    rw [hunreached, if_neg Bool.false_ne_true, updateDc, hactive, if_neg Bool.false_ne_true]
  refine ⟨⟨next, w.results ++ [false], w.recent ++ [false]⟩, ?_, ?_⟩
  · rw [Watched.step, MasterOperation.apply, hexchange]
    change Except.ok _ = _
    rw [added, h.completed]
    rfl
  · refine ⟨h.exchanging, h.config, h.expected, h.clocks, ?_⟩
    rw [h.results, List.replicate_succ']

theorem unnoticed_run (n : Nat) :
    ∃ w, run .release unlimited (mismatches n) = .ok w ∧ Unnoticed n w := by
  induction n with
  | zero =>
    have hrun : (run .release unlimited (mismatches 0)).map (fun w =>
        (w.master.exchanging, w.master.config, w.master.processImage.expectedWkc,
          w.master.dc.active, w.results)) = .ok (true, unlimited, 1, false, []) := by
      decide
    obtain ⟨w, hw, hseen⟩ := map_eq_ok.mp hrun
    simp only [Prod.mk.injEq] at hseen
    obtain ⟨hexchanging, hconfig, hexpected, hclocks, hresults⟩ := hseen
    refine ⟨w, hw, hexchanging, hconfig, ?_, hclocks, hresults⟩
    rw [hexpected]
    decide
  | succ n ih =>
    obtain ⟨w, hw, hbefore⟩ := ih
    obtain ⟨w', hstep, hafter⟩ := hbefore.step
    refine ⟨w', ?_, hafter⟩
    rw [mismatches, List.replicate_succ', ← List.cons_append, ← mismatches, run_concat, hw]
    exact hstep

/-- So enough mismatches fill the counter. -/
theorem not_errorsFit_mismatches {n : Nat} (h : u32Card ≤ n) :
    ¬ ErrorsFit .release unlimited (mismatches n) := by
  intro hfit
  obtain ⟨w, hrun, hafter⟩ := unnoticed_run n
  have hshort := hfit.short (List.append_nil _).symm hrun
  have hall : n ≤ lastFailures w.results := by
    rw [hafter.results, ← replicate_suffix_iff]
  exact Nat.not_lt.mpr (h.trans hall) hshort

end Watched

end VirtualPlc.Fieldbus
