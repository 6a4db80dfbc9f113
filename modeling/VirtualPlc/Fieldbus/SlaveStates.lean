import VirtualPlc.Fieldbus.MasterRuns

/-!
# The state the slaves are left in

The master follows the commands that the transport has accepted as long as it is in PRE_OP, SAFE_OP
or OP (`told_run`). A shutdown out of these states brings the slaves back to INIT (`lower_last`);
out of the others it only closes the transport (`lower_of_command_none`).
-/

set_option autoImplicit false

namespace VirtualPlc.Fieldbus

open VirtualPlc.Runtime VirtualPlc.Word Relation

/-- A slave that has been brought out of INIT. -/
def SlaveState.Raised (state : SlaveState) : Prop := state = .preOp ∨ state = .safeOp ∨ state = .op

/-- The transport has accepted INIT after every command out of it, before it is closed. -/
def LeavesInit (calls : List TransportCall) : Prop :=
  ∃ sent result, calls = sent ++ [.close result] ∧
    ∀ before state after, sent = before ++ .setState state (.ok ()) :: after → state.Raised →
      .setState .init (.ok ()) ∈ after

/-- The commands accepted so far. -/
def commands (calls : List TransportCall) : List SlaveState :=
  calls.filterMap TransportCall.accepted

@[simp] theorem commands_append (calls more : List TransportCall) :
    commands (calls ++ more) = commands calls ++ commands more := List.filterMap_append

theorem mem_commands {calls : List TransportCall} {state : SlaveState} :
    state ∈ commands calls ↔ .setState state (.ok ()) ∈ calls := by
  rw [commands, List.mem_filterMap]
  constructor
  · rintro ⟨call, hmem, haccepted⟩
    cases call with
    | setState s result =>
      cases result with
      | error e => cases haccepted
      | ok u =>
        cases haccepted
        exact hmem
    | _ => cases haccepted
  · exact fun hmem => ⟨_, hmem, rfl⟩

/-- INIT after every command out of it means that INIT is the last of them, or that there is none.
-/
theorem leavesInit_close_iff {sent : List TransportCall} {result : PlcResult Unit}
    (hboot : .bootstrap ∉ commands sent) :
    LeavesInit (sent ++ [.close result]) ↔
      ∀ state, (commands sent).getLast? = some state → ¬ state.Raised := by
  have hsplit : LeavesInit (sent ++ [.close result]) ↔
      ∀ before state after, sent = before ++ .setState state (.ok ()) :: after → state.Raised →
        .setState .init (.ok ()) ∈ after := by
    constructor
    · rintro ⟨sent', result', heq, h⟩
      obtain rfl : sent = sent' := (List.append_inj' heq rfl).1
      exact h
    · exact fun h => ⟨sent, result, rfl, h⟩
  rw [hsplit]
  constructor
  · intro h state hlast hraised
    obtain ⟨front, hfront⟩ := List.getLast?_eq_some_iff.mp hlast
    obtain ⟨before, after, hsent, -, hafter⟩ := List.filterMap_eq_append_iff.mp hfront
    obtain ⟨skip, call, rest, hafter', hskip, haccepted, hrest⟩ :=
      List.filterMap_eq_cons_iff.mp hafter
    have hcall : call = .setState state (.ok ()) := by
      cases call with
      | setState s answer =>
        cases answer with
        | error e => cases haccepted
        | ok u =>
          cases haccepted
          rfl
      | _ => cases haccepted
    -- a raised last command would be followed by an INIT, which is a later command
    have hinit := h (before ++ skip) state rest (by rw [hsent, hafter', hcall]; simp) hraised
    have hmem : SlaveState.init ∈ commands rest := mem_commands.mpr hinit
    rw [commands, hrest] at hmem
    cases hmem
  · intro h before state after heq hraised
    -- the last command comes after this one, and it is neither raised nor a bootstrap
    have hsent : commands sent = commands before ++ state :: commands after := by
      rw [heq, commands_append]
      rfl
    rcases List.eq_nil_or_concat (commands after) with hnil | ⟨front, last, hlast⟩
    · refine absurd hraised (h state ?_)
      rw [hsent, hnil]
      simp
    · rw [List.concat_eq_append] at hlast
      have hend : (commands sent).getLast? = some last := by
        rw [hsent, hlast, ← List.cons_append, ← List.append_assoc]
        exact List.getLast?_concat
      have hlower := h last hend
      have hmem : last ∈ commands after := by simp [hlast]
      have hnotboot : last ≠ .bootstrap := by
        rintro rfl
        exact hboot (hsent ▸ List.mem_append_right _ (List.mem_cons_of_mem _ hmem))
      have hinit : last = .init := by
        cases last with
        | init => rfl
        | preOp => exact absurd (.inl rfl) hlower
        | safeOp => exact absurd (.inr (.inl rfl)) hlower
        | op => exact absurd (.inr (.inr rfl)) hlower
        | bootstrap => exact absurd rfl hnotboot
      rw [hinit] at hmem
      exact mem_commands.mp hmem

/-! ## The last command -/

/-- The last accepted command is that of the master's state, where it has one. -/
structure Told (m : EthercatMaster) : Prop where
  last : ∀ command, m.state.command = some command →
    (commands m.transport).getLast? = some command
  noBoot : .bootstrap ∉ commands m.transport

namespace Told

variable {m m' : EthercatMaster}

/-- Neither state nor commands change. -/
theorem congr (h : Told m) (hstate : m'.state = m.state)
    (hcommands : commands m'.transport = commands m.transport) : Told m' := by
  refine ⟨fun command hcommand => ?_, hcommands ▸ h.noBoot⟩
  rw [hcommands]
  exact h.last command (hstate ▸ hcommand)

/-- A state without a command. -/
theorem left (h : Told m) (hstate : m'.state.command = none)
    (hcommands : commands m'.transport = commands m.transport) : Told m' := by
  refine ⟨fun command hcommand => ?_, hcommands ▸ h.noBoot⟩
  rw [hstate] at hcommand
  cases hcommand

theorem part (h : Told m) (hpart : Part m m') : Told m' := by
  cases hpart with
  | called call haccepted =>
    refine h.congr rfl ?_
    rw [EthercatMaster.call, commands_append, commands, commands, List.filterMap_cons, haccepted]
    simp
  | commanded command target network hboot htarget =>
    have hcommands : commands (m.call (.setState command (.ok ()))).transport =
        commands m.transport ++ [command] := commands_append m.transport _
    refine ⟨fun other hother => ?_, ?_⟩
    · rcases htarget with hnone | hsome
      · rw [hnone] at hother
        cases hother
      · rw [hsome] at hother
        cases hother
        rw [hcommands]
        exact List.getLast?_concat
    · rw [hcommands, List.mem_append, List.mem_singleton]
      rintro (hold | hnew)
      · exact h.noBoot hold
      · exact hboot hnew.symm
  | left target network dc htarget => exact h.left htarget rfl
  | loaded network dc image => exact h.congr rfl rfl

theorem reaches (h : Told m) (hr : Reaches m m') : Told m' := by
  induction hr with
  | refl => exact h
  | tail _ hpart ih => exact ih.part hpart

theorem clockUpdated (h : Told m) (hclock : m.ClockUpdated m') : Told m' := by
  refine h.congr hclock.state ?_
  rcases hclock.transport with heq | ⟨result, heq⟩
  · rw [heq]
  · rw [heq, commands_append]
    simp [commands, TransportCall.accepted]

/-- An exchange sends no command; it can only leave OP or SAFE_OP for the fault. -/
theorem exchange {b : Build} {answers : ExchangeAnswers} {r : PlcResult Unit × EthercatMaster}
    (h : Told m) (hr : m.exchange b answers = .ok r) : Told r.2 := by
  have hexchanged : Told (m.exchanged answers) := by
    refine h.congr rfl ?_
    simp [EthercatMaster.exchanged, EthercatMaster.call, commands, TransportCall.accepted]
  cases EthercatMaster.exchange_cases hr with
  | refused _ heq => rwa [heq]
  | failed _ e _ heq => rwa [heq]
  | tripped _ wkc _ _ errors _ _ heq =>
    rw [heq]
    exact hexchanged.left rfl rfl
  | mismatched _ wkc _ _ errors _ _ _ hclock =>
    have hcounted : Told (((m.exchanged answers).countCycle wkc).mismatched errors) :=
      hexchanged.congr rfl rfl
    exact hcounted.clockUpdated hclock
  | matched _ wkc _ _ _ hclock =>
    have hcounted : Told (((m.exchanged answers).countCycle wkc).matched answers.rttUs) :=
      hexchanged.congr rfl rfl
    exact hcounted.clockUpdated hclock

theorem apply {b : Build} {op : MasterOperation} (h : Told m) (hop : op.apply b m = .ok m') :
    Told m' := by
  by_cases hexchange : ∃ answers, op = .exchange answers
  · obtain ⟨answers, rfl⟩ := hexchange
    obtain ⟨r, hr, hret⟩ := bind_eq_ok.1 hop
    cases hret
    exact h.exchange hr
  · exact h.reaches (EthercatMaster.reaches_apply hop fun answers heq => hexchange ⟨answers, heq⟩)

end Told

namespace EthercatMaster

variable {b : Build} {m : EthercatMaster}

/-- In every reachable state, the slaves were last told the state of the master. -/
theorem told_run {config : EthercatConfig} {ops : List MasterOperation}
    (h : run b config ops = .ok m) : Told m := by
  induction ops using List.reverseRecOn generalizing m with
  | nil =>
    cases h
    refine ⟨fun command hcommand => ?_, ?_⟩
    · cases hcommand
    · exact List.not_mem_nil
  | append_singleton ops op ih =>
    rw [run_concat] at h
    obtain ⟨m', hm', happly⟩ := bind_eq_ok.1 h
    exact (ih hm').apply happly

/-! ## The shutdown -/

theorem andThen_ok {step : PlcResult Unit × EthercatMaster}
    {f : EthercatMaster → PlcResult Unit × EthercatMaster} (h : (andThen step f).1 = .ok ()) :
    step.1 = .ok () ∧ andThen step f = f step.2 := by
  obtain ⟨result, m'⟩ := step
  cases result with
  | error e => cases h
  | ok u => exact ⟨rfl, rfl⟩

/-- The shutdown before it closes the transport. -/
def lower (m : EthercatMaster) (answers : ShutdownAnswers) : PlcResult Unit × EthercatMaster :=
  andThen (m.stepDown .op .safeOp .safeOp answers.safeOp) fun m =>
    andThen (m.stepDown .safeOp .preOp .preOp answers.preOp) fun m =>
      m.stepDown .preOp .init .init answers.init

theorem shutdown_eq (m : EthercatMaster) (answers : ShutdownAnswers) :
    m.shutdown answers = andThen (m.lower answers) fun m => m.closeTransport answers.close := by
  rw [shutdown, lower]
  obtain ⟨result, m₁⟩ := m.stepDown .op .safeOp .safeOp answers.safeOp
  cases result with
  | error e => rfl
  | ok u =>
    simp only [andThen]
    obtain ⟨result, m₂⟩ := m₁.stepDown .safeOp .preOp .preOp answers.preOp
    cases result with
    | error e => rfl
    | ok u => rfl

theorem reaches_lower (m : EthercatMaster) (answers : ShutdownAnswers) :
    Reaches m (m.lower answers).2 := by
  refine reaches_andThen ?_ fun m₁ => reaches_andThen ?_ fun m₂ => ?_
  · exact reaches_stepDown (by simp) (.inr rfl) _ _
  · exact reaches_stepDown (by simp) (.inr rfl) _ _
  · exact reaches_stepDown (by simp) (.inl rfl) _ _

theorem stepDown_of_ne {source target : MasterState} {command : SlaveState}
    (hstate : m.state ≠ source) (answer : PlcResult Unit) :
    stepDown source command target m answer = (.ok (), m) := if_neg hstate

theorem stepDown_ok {source target : MasterState} {command : SlaveState} {answer : PlcResult Unit}
    (hstate : m.state = source) (h : (stepDown source command target m answer).1 = .ok ()) :
    stepDown source command target m answer =
      (.ok (), { m.call (.setState command (.ok ())) with state := target }) := by
  cases answer with
  | error e =>
    rw [stepDown, if_pos hstate] at h
    cases h
  | ok u => exact if_pos hstate

/-- From the states without a command the shutdown only closes the transport. -/
theorem lower_of_command_none (h : m.state.command = none) (answers : ShutdownAnswers) :
    m.lower answers = (.ok (), m) := by
  have hne : ∀ source : MasterState, source.command ≠ none → m.state ≠ source := by
    rintro source hsource rfl
    exact hsource h
  rw [lower, stepDown_of_ne (hne .op (by simp [MasterState.command])), andThen,
    stepDown_of_ne (hne .safeOp (by simp [MasterState.command])), andThen,
    stepDown_of_ne (hne .preOp (by simp [MasterState.command]))]

/-- From the others its last command is INIT. -/
theorem lower_last {answers : ShutdownAnswers} (hcommand : m.state.command ≠ none)
    (h : (m.lower answers).1 = .ok ()) :
    (commands (m.lower answers).2.transport).getLast? = some .init := by
  rw [lower] at h ⊢
  obtain ⟨hop, heq⟩ := andThen_ok h
  rw [heq] at h ⊢
  obtain ⟨hsafeOp, heq'⟩ := andThen_ok h
  rw [heq'] at h ⊢
  -- each step is taken in its state and hands its target to the next one
  have hpreOp : (stepDown .safeOp .preOp .preOp (stepDown .op .safeOp .safeOp m answers.safeOp).2
      answers.preOp).2.state = .preOp := by
    cases hstate : m.state with
    | offline | init | fault =>
      rw [hstate] at hcommand
      exact absurd rfl hcommand
    | preOp =>
      have hskip : m.stepDown .op .safeOp .safeOp answers.safeOp = (.ok (), m) :=
        stepDown_of_ne (by simp [hstate]) _
      rw [hskip, stepDown_of_ne (by simp [hstate])]
      exact hstate
    | safeOp =>
      have hskip : m.stepDown .op .safeOp .safeOp answers.safeOp = (.ok (), m) :=
        stepDown_of_ne (by simp [hstate]) _
      rw [hskip] at hsafeOp ⊢
      rw [stepDown_ok hstate hsafeOp]
    | op =>
      rw [stepDown_ok hstate hop] at hsafeOp ⊢
      rw [stepDown_ok rfl hsafeOp]
  rw [stepDown_ok hpreOp h]
  simp only [EthercatMaster.call, commands_append]
  exact List.getLast?_concat

/-- In every reachable state, a shutdown that succeeds leaves the slaves in INIT exactly if the
master is in one of the states it steps down from, or the slaves have not been brought out of INIT
since they were last sent there. -/
theorem shutdown_leavesInit_iff {config : EthercatConfig} {ops : List MasterOperation}
    (h : run b config ops = .ok m) (answers : ShutdownAnswers) :
    ((m.shutdown answers).1 = .ok () → LeavesInit (m.shutdown answers).2.transport) ↔
      m.state = .preOp ∨ m.state = .safeOp ∨ m.state = .op ∨
        (∀ state, (commands m.transport).getLast? = some state → ¬ state.Raised) ∨
        answers.close ≠ .ok () := by
  have htold : Told m := told_run h
  have hstates : (m.state = .preOp ∨ m.state = .safeOp ∨ m.state = .op) ↔
      m.state.command ≠ none := by
    cases m.state <;> simp [MasterState.command]
  rw [← or_assoc, ← or_assoc, or_assoc (a := m.state = .preOp), hstates]
  by_cases hcommand : m.state.command = none
  · rw [or_iff_right (fun hne => hne hcommand), shutdown_eq, lower_of_command_none hcommand,
      andThen]
    cases hclose : answers.close with
    | error e => exact iff_of_true (fun hok => by cases hok) (.inr (by simp))
    | ok u =>
      have hleaves := @leavesInit_close_iff m.transport (.ok ()) htold.noBoot
      constructor
      · exact fun hshutdown => .inl (hleaves.1 (hshutdown rfl))
      · rintro (hlast | hne) -
        · exact hleaves.2 hlast
        · exact absurd rfl hne
  · refine iff_of_true (fun hok => ?_) (.inl hcommand)
    rw [shutdown_eq] at hok ⊢
    obtain ⟨hlower, heq⟩ := andThen_ok hok
    rw [heq] at hok ⊢
    have hnoBoot := (htold.reaches (reaches_lower m answers)).noBoot
    have hlast := lower_last hcommand hlower
    cases hclose : answers.close with
    | error e =>
      rw [hclose] at hok
      cases hok
    | ok u =>
      refine (leavesInit_close_iff hnoBoot).2 fun state hstate => ?_
      rw [hlast] at hstate
      cases hstate
      simp [SlaveState.Raised]

/-- A slave that does not answer three times faults the master; the shutdown then leaves it in OP.
-/
theorem shutdown_leavesInit_fails :
    ¬ ∀ (config : EthercatConfig) (ops : List MasterOperation) (m : EthercatMaster)
      (answers : ShutdownAnswers), run .release config ops = .ok m →
        (m.shutdown answers).1 = .ok () → LeavesInit (m.shutdown answers).2.transport := by
  intro hclaim
  have hrun : (run .release threeErrors [.init twoByteBus, .exchange (wkcAnswer 0),
      .exchange (wkcAnswer 0), .exchange (wkcAnswer 0)]).map
        (fun m => (m.state, commands m.transport)) = .ok (.fault, [.preOp, .safeOp, .op]) := by
    decide
  obtain ⟨m, hm, hseen⟩ := map_eq_ok.1 hrun
  obtain ⟨hstate, hcommands⟩ := Prod.mk.inj hseen
  have hshutdown : m.shutdown ⟨.ok (), .ok (), .ok (), .ok ()⟩ = m.closeTransport (.ok ()) := by
    rw [shutdown_eq, lower_of_command_none (by rw [hstate]; rfl)]
    rfl
  have hleaves := hclaim _ _ m ⟨.ok (), .ok (), .ok (), .ok ()⟩ hm (by rw [hshutdown]; rfl)
  rw [hshutdown] at hleaves
  -- the last accepted command is OP
  refine (leavesInit_close_iff (told_run hm).noBoot).1 hleaves .op ?_ (.inr (.inr rfl))
  rw [hcommands]
  rfl

/-- After a good exchange the master is in OP, and a shutdown that succeeds sends the slave to INIT.
-/
theorem shutdown_leavesInit_op : ∃ m, run .release threeErrors
    [.init twoByteBus, .exchange (wkcAnswer 1)] = .ok m ∧ m.state = .op ∧
      ((m.shutdown ⟨.ok (), .ok (), .ok (), .ok ()⟩).1 = .ok () →
        LeavesInit (m.shutdown ⟨.ok (), .ok (), .ok (), .ok ()⟩).2.transport) := by
  have hrun : (run .release threeErrors [.init twoByteBus, .exchange (wkcAnswer 1)]).map
      (·.state) = .ok .op := by decide
  obtain ⟨m, hm, hstate⟩ := map_eq_ok.1 hrun
  exact ⟨m, hm, hstate, (shutdown_leavesInit_iff hm _).2 (.inr (.inr (.inl hstate)))⟩

end EthercatMaster

end VirtualPlc.Fieldbus
