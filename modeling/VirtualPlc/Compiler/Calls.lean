import VirtualPlc.Compiler.Simulation
import VirtualPlc.Compiler.MemoryMap
import VirtualPlc.Compiler.TypeSoundness

/-!
# Calls of compiled POUs

`programOf` instantiates an emitted module with host functions. A call of the function of a plain
POU does with the represented store what the POU means (`call_means`), as long as the host functions
answer from the reserved bytes, which the code of the POU leaves alone.
-/

set_option autoImplicit false

namespace VirtualPlc.Compiler

open VirtualPlc.Word VirtualPlc.Wasm VirtualPlc.Control

/-- The program of an emitted module over the given host functions. -/
def programOf (m : Wasm.Module) (float : FloatOps) (hosts : List HostFunction) :
    Option (Instance Bounds) :=
  m.bodies.map fun bodies => ⟨float, hosts, m.funcType, bodies, fun _ => false, fun _ _ => none⟩

/-- The memories agree in the bytes that are reserved for the host. -/
structure SameImage (image mem : Memory) : Prop where
  size : mem.size = image.size
  reserved : ∀ a < reservedBytes, mem.byte a = image.byte a

/-- In memories with the reserved bytes of `image` the host functions that return a value answer
with it, and leave the memory alone. -/
structure HostsAnswer (hosts : List HostFunction) (answers : Answers) (image : Memory) : Prop where
  length : hosts.length = importHostFunctions.length
  read : ∀ {i k : Nat} {function : Import} {f : HostFunction},
    importHostFunctions[i]? = some function → hosts[i]? = some f →
    readArity function.name = some k → ∀ (xs : List Int) {mem : Memory}, SameImage image mem →
      xs.length = k → f (xs.map fun x => .i32 (BitVec.ofInt 32 x)) mem =
        (answers function.name xs).map fun w => ([.i32 w], mem)

/-- A POU of plain statements whose variables fit the memory, in a unit that leaves the names of the
host functions alone. -/
structure PlainPou (ast : CompilationUnit) (unit : ProgramUnit) (pou : TypedPou) : Prop where
  hosts : ∀ {name k}, readArity name = some k → some name ∉ ast.callableNames
  plain : plainAll pou.symbols.types false unit.body = true
  fits : stmtsFit pou.body .top true = true
  within : unit.WithinPage
  nonempty : ∀ s ∈ unit.sizes, s ≠ 0

/-- The result of a call is what the signal means. -/
def CallMeans (symbols : SymbolTable) (mem₀ : Memory) : Signal RunError Store → CallResult → Prop
  | .next ρ, r => ∃ mem, r = some (.ok ([], mem)) ∧ Represents symbols mem₀ ρ mem
  | .ret ρ, r => ∃ mem, r = some (.ok ([], mem)) ∧ Represents symbols mem₀ ρ mem
  | .stop e, r => r = some (.error e.fault)
  | .timeout, r => r = none
  | .exit _, _ => False
  | .again _, _ => False

section Results

variable {symbols : SymbolTable} {mem₀ mem : Memory} {a : Signal RunError Store}

theorem CallMeans.of_none (h : CallMeans symbols mem₀ a none) : a = .timeout := by
  cases a with
  | timeout => rfl
  | next ρ =>
    obtain ⟨_, hnone, -⟩ := h
    cases hnone
  | ret ρ =>
    obtain ⟨_, hnone, -⟩ := h
    cases hnone
  | stop e =>
    have hnone : none = some _ := h
    cases hnone
  | exit ρ => exact h.elim
  | again ρ => exact h.elim

theorem CallMeans.of_error {e : Fault} (h : CallMeans symbols mem₀ a (some (.error e))) :
    ∃ e', a = .stop e' ∧ e = e'.fault := by
  cases a with
  | stop e' => exact ⟨e', rfl, Except.error.inj (Option.some.inj h)⟩
  | next ρ =>
    obtain ⟨_, herror, -⟩ := h
    cases herror
  | ret ρ =>
    obtain ⟨_, herror, -⟩ := h
    cases herror
  | timeout =>
    have hnone : some _ = none := h
    cases hnone
  | exit ρ => exact h.elim
  | again ρ => exact h.elim

theorem CallMeans.of_ok {vs : List Value}
    (h : CallMeans symbols mem₀ a (some (.ok (vs, mem)))) :
    ∃ ρ, (a = .next ρ ∨ a = .ret ρ) ∧ Represents symbols mem₀ ρ mem := by
  cases a with
  | next ρ =>
    obtain ⟨_, heq, hmem⟩ := h
    cases heq
    exact ⟨ρ, .inl rfl, hmem⟩
  | ret ρ =>
    obtain ⟨_, heq, hmem⟩ := h
    cases heq
    exact ⟨ρ, .inr rfl, hmem⟩
  | stop e =>
    have hstop : some (Except.ok _) = some (.error _) := h
    cases hstop
  | timeout =>
    have hnone : some _ = none := h
    cases hnone
  | exit ρ => exact h.elim
  | again ρ => exact h.elim

end Results

/-! ## Statements outside of loops -/

section Closed

variable {types : Types} {answers : Answers} {n : Nat}

theorem closed_withValue {v : Option Int} {f : Int → Signal RunError Store}
    (hf : ∀ v, (f v).Closed) : (withValue v f).Closed := by
  cases v with
  | none => trivial
  | some v => exact hf v

theorem closed_next (ρ : Store) : (Signal.next ρ : Signal RunError Store).Closed := trivial

theorem closed_ite {p : Prop} [Decidable p] {a c : Signal RunError Store} (ha : a.Closed)
    (hc : c.Closed) : (if p then a else c).Closed := by
  split
  · exact ha
  · exact hc

mutual
/-- Plain statements outside of loops ask for no loop around them. -/
theorem closed_run : ∀ (stmt : Statement), stmt.plain types false = true →
    ∀ ρ, (stmt.run types answers n ρ).Closed
  | .assignment target value, _, ρ => by
    unfold Statement.run
    split
    · exact closed_withValue fun _ => trivial
    · trivial
  | .ifStmt condition thenBranch elsifBranches none, h, ρ => by
    simp only [Statement.plain, Bool.and_eq_true] at h
    rw [Statement.run]
    apply closed_withValue
    intro v
    apply closed_ite
    · exact closed_runAll thenBranch h.2.1 ρ
    · exact closed_runElsifs elsifBranches h.2.2.1 closed_next ρ
  | .ifStmt condition thenBranch elsifBranches (some stmts), h, ρ => by
    simp only [Statement.plain, Bool.and_eq_true] at h
    rw [Statement.run]
    apply closed_withValue
    intro v
    apply closed_ite
    · exact closed_runAll thenBranch h.2.1 ρ
    · exact closed_runElsifs elsifBranches h.2.2.1 (closed_runAll stmts h.2.2.2) ρ
  | .caseStmt selector branches none, h, ρ => by
    simp only [Statement.plain, Bool.and_eq_true] at h
    rw [Statement.run]
    apply closed_withValue
    intro v
    exact closed_runBranches branches h.2.1 closed_next v ρ
  | .caseStmt selector branches (some stmts), h, ρ => by
    simp only [Statement.plain, Bool.and_eq_true] at h
    rw [Statement.run]
    apply closed_withValue
    intro v
    exact closed_runBranches branches h.2.1 (closed_runAll stmts h.2.2) v ρ
  | .forStmt .., _, ρ => by
    rw [Statement.run]
    exact closed_withValue fun _ => closed_passes _ _ _
  | .whileStmt .., _, ρ => by
    rw [Statement.run]
    exact closed_passes _ _ _
  | .repeatStmt .., _, ρ => by
    rw [Statement.run]
    exact closed_passes _ _ _
  -- outside of a loop no plain statement jumps
  | .exitStmt, h, _ => by cases h
  | .continueStmt, h, _ => by cases h
  | .returnStmt none, _, ρ => trivial
  | .returnStmt (some e), _, ρ => by
    rw [Statement.run]
    exact closed_withValue fun _ => trivial
  | .callStmt .., _, _ => trivial
  | .empty, _, _ => trivial
theorem closed_runAll : ∀ (stmts : List Statement), plainAll types false stmts = true →
    ∀ ρ, (runAll types answers n stmts ρ).Closed
  | [], _, _ => trivial
  | stmt :: rest, h, ρ => by
    rw [plainAll, Bool.and_eq_true] at h
    rw [runAll]
    exact (closed_run stmt h.1 ρ).andThen (closed_runAll rest h.2)
theorem closed_runElsifs : ∀ (branches : List (Expression × List Statement)),
    plainElsifs types false branches = true → ∀ {els : Store → Signal RunError Store},
      (∀ ρ, (els ρ).Closed) → ∀ ρ, (runElsifs types answers n branches els ρ).Closed
  | [], _, _, hels, ρ => hels ρ
  | (condition, stmts) :: rest, h, els, hels, ρ => by
    simp only [plainElsifs, Bool.and_eq_true] at h
    rw [runElsifs]
    apply closed_withValue
    intro v
    apply closed_ite
    · exact closed_runAll stmts h.2.1 ρ
    · exact closed_runElsifs rest h.2.2 hels ρ
theorem closed_runBranches : ∀ (branches : List (List CaseValue × List Statement)),
    plainBranches types false branches = true → ∀ {els : Store → Signal RunError Store},
      (∀ ρ, (els ρ).Closed) → ∀ v ρ, (runBranches types answers n branches v els ρ).Closed
  | [], _, _, hels, _, ρ => hels ρ
  | (values, stmts) :: rest, h, els, hels, v, ρ => by
    simp only [plainBranches, Bool.and_eq_true] at h
    rw [runBranches]
    apply closed_ite
    · exact closed_runAll stmts h.2.1 ρ
    · exact closed_runBranches rest h.2.2 hels v ρ
end

end Closed

/-! ## Declared variables -/

section Declared

variable {b : Build} {unit : ProgramUnit} {tc tc' : TypeChecker}

/-- Entries of a symbol table are under the names of their symbols. -/
def SymbolTable.Named (symbols : SymbolTable) : Prop :=
  ∀ entry ∈ symbols.vars, entry.1 = entry.2.name

theorem named_registerAll {ds : List Declaration} (h : tc.symbols.Named)
    (hr : ds.foldlM (TypeChecker.registerDeclaration b) tc = .ok tc') : tc'.symbols.Named := by
  induction ds generalizing tc with
  | nil =>
    cases hr
    exact h
  | cons d rest ih =>
    rw [List.foldlM_cons] at hr
    obtain ⟨tc1, h1, hr⟩ := bind_eq_ok.1 hr
    obtain ⟨-, offset, next, -, -, rfl⟩ := registerDeclaration_ok.1 h1
    refine ih ?_ hr
    intro entry he
    rcases List.mem_cons.1 he with rfl | he
    · rfl
    · exact h entry he

theorem named_declare (h : tc.declare b unit = .ok tc') : tc'.symbols.Named := by
  rw [declare_eq] at h
  obtain ⟨tc1, h1, h⟩ := bind_eq_ok.1 h
  refine named_registerAll ?_ h
  cases unit with
  | program p =>
    cases h1
    rintro _ ⟨⟩
  | functionBlock fb =>
    cases h1
    rintro _ ⟨⟩
  | function f =>
    obtain ⟨size, -, h1⟩ := bind_eq_ok.1 h1
    obtain ⟨next, -, h1⟩ := bind_eq_ok.1 h1
    cases h1
    intro entry he
    rw [List.mem_singleton.1 he]

theorem mem_infos {symbols : SymbolTable} {name : String} {info : SymbolInfo}
    (h : symbols.vars.lookup name = some info) :
    (name, info) ∈ symbols.vars ∧ info ∈ symbols.infos := by
  obtain ⟨before, after, hsplit, -⟩ := List.lookup_eq_some_iff.1 h
  have hmem : (name, info) ∈ symbols.vars := by
    rw [hsplit]
    simp
  exact ⟨hmem, List.mem_map.2 ⟨(name, info), List.mem_reverse.2 hmem, rfl⟩⟩

theorem storage_pos_of_isPlain {ty : DataType} (h : ty.isPlain = true) : 0 < ty.storage := by
  cases ty <;> first | decide | cases h

/-- The variables of a declared POU have bytes of their own in the page of the module, above the
reserved ones. -/
theorem placed_declare (h : tc.declare b unit = .ok tc') (hwithin : unit.WithinPage)
    (hsizes : ∀ s ∈ unit.sizes, s ≠ 0) :
    tc'.symbols.Placed pageSize ∧
      ∀ {name info}, tc'.symbols.Plain name info → reservedBytes ≤ info.offset := by
  obtain ⟨⟨spans, hd⟩, -⟩ := declare_ok h
  have hfit := (declares_fits_iff hd).2 hwithin
  have hstops : ∀ t ∈ unit.resultSpan ++ spans, t.stop ≤ pageSize := by
    intro t ht
    rw [← hd.map_span] at ht
    obtain ⟨info, hi, rfl⟩ := List.mem_map.1 ht
    exact (hfit info hi).inside
  have hsound := layoutSound_of_spans hd hsizes (hd.spans_within (.inl hstops))
  refine ⟨⟨pageSize_lt, ?_, ?_⟩, ?_⟩
  · intro name info hv
    have hi := (mem_infos hv.found).2
    rw [← hd.size_eq hi]
    exact (hfit info hi).inside
  · intro name name' info info' hv hv' hne
    obtain ⟨hm, hi⟩ := mem_infos hv.found
    obtain ⟨hm', hi'⟩ := mem_infos hv'.found
    have hinfo : info ≠ info' := by
      rintro rfl
      exact hne ((named_declare h _ hm).trans (named_declare h _ hm').symm)
    have hsymm : Std.Symm fun i j : SymbolInfo => i.span.Disjoint j.span :=
      ⟨fun _ _ => Span.Disjoint.symm⟩
    have hdisjoint : info.span.Disjoint info'.span := hsound.disjoint.forall hi hi' hinfo
    have hpos := storage_pos_of_isPlain hv.plain
    have hpos' := storage_pos_of_isPlain hv'.plain
    by_contra hnot
    -- the later of the two offsets is in both spans
    have hsize := hd.size_eq hi
    have hsize' := hd.size_eq hi'
    apply hdisjoint (max info.offset info'.offset)
    · exact Nat.le_max_left _ _
    · show _ < info.offset + info.size
      omega
    · exact Nat.le_max_right _ _
    · show _ < info'.offset + info'.size
      omega
  · intro name info hv
    exact hsound.aboveReserved info (mem_infos hv.found).2

end Declared

/-- A memory represents a store wherever it comes from. -/
theorem Represents.self {symbols : SymbolTable} {mem₀ mem : Memory} {ρ : Store}
    (h : Represents symbols mem₀ ρ mem) : Represents symbols mem ρ mem :=
  ⟨rfl, h.value, h.truth, fun _ _ => rfl⟩

/-- Memories that represent stores from one memory agree in the reserved bytes. -/
theorem Represents.sameImage {symbols : SymbolTable} {image mem : Memory} {ρ : Store}
    (habove : ∀ {name info}, symbols.Plain name info → reservedBytes ≤ info.offset)
    (h : Represents symbols image ρ mem) : SameImage image mem := by
  refine ⟨h.size, ?_⟩
  intro a ha
  apply h.outside
  intro name info hv
  exact .inl (Nat.lt_of_lt_of_le ha (habove hv))

/-! ## Calls -/

section Calls

variable {typed : TypedUnit} {float : FloatOps} {hosts : List HostFunction} {answers : Answers}
  {p : Instance Bounds}

/-- The program of the module of a unit. -/
theorem programOf_module (h : programOf typed.module float hosts = some p) :
    p = ⟨float, hosts, typed.module.funcType, typed.units.map fun pou =>
      ⟨List.replicate (stmtsLocals pou.body) .i32, strip (pou.code typed.emitter.link)⟩,
      fun _ => false, fun _ _ => none⟩ := by
  rw [programOf, module_bodies] at h
  exact (Option.some.inj h).symm

theorem readArity_cases {name : String} {k : Nat} (h : readArity name = some k) :
    name = "read_di" ∧ k = 1 ∨ name = "read_ai" ∧ k = 1 ∨ name = "get_cycle_time" ∧ k = 0 := by
  unfold readArity at h
  split at h
  · cases h
    exact .inl ⟨‹_›, rfl⟩
  · split at h
    · cases h
      exact .inr (.inl ⟨‹_›, rfl⟩)
    · split at h
      · cases h
        exact .inr (.inr ⟨‹_›, rfl⟩)
      · cases h

theorem readArity_host {name : String} {k : Nat} (h : readArity name = some k) :
    hostType name = some ⟨List.replicate k .i32, [.i32]⟩ ∧
      ∃ sig, hostSignatures.lookup name = some sig := by
  rcases readArity_cases h with ⟨rfl, rfl⟩ | ⟨rfl, rfl⟩ | ⟨rfl, rfl⟩
  · exact ⟨rfl, _, rfl⟩
  · exact ⟨rfl, _, rfl⟩
  · exact ⟨rfl, _, rfl⟩

/-- The generated calls of the host functions reach the ones of the program. -/
theorem answersCalls_program (hp : programOf typed.module float hosts = some p) {image : Memory}
    {P : Memory → Prop} (hhosts : HostsAnswer hosts answers image)
    (hP : ∀ {mem}, P mem → SameImage image mem) (n d : Nat) :
    AnswersCalls (p.env (p.call n (d + 1))) typed.emitter.link answers P := by
  obtain rfl := programOf_module hp
  constructor
  · intro name k hname
    exact linksHosts typed name _ (readArity_host hname).1
  · intro name k hname xs mem hmem hxs
    obtain ⟨htype, sig, hsig⟩ := readArity_host hname
    obtain ⟨-, i, function, hresolve, himport, rfl⟩ := host_import typed hsig
    have hlink : typed.emitter.link function.name false = i := by rw [WasmEmitter.link, hresolve]
    have hfunc := linksHosts typed function.name _ htype
    obtain ⟨hi, -⟩ := List.getElem?_eq_some_iff.1 himport
    have hhost : hosts[i]? = some (hosts.get ⟨i, hhosts.length ▸ hi⟩) := List.getElem?_eq_getElem _
    rw [hlink] at hfunc ⊢
    show Instance.call _ n (d + 1) i _ mem = _
    rw [Instance.call]
    simp only [hfunc, hhost]
    rw [hhosts.read himport hhost hname xs (hP hmem) hxs]
    cases answers function.name xs <;> rfl

/-- The functions of the POUs have neither parameters nor results. -/
theorem funcType_pou {j : Nat} {pou : TypedPou} (h : typed.units[j]? = some pou) :
    typed.module.funcType (importHostFunctions.length + j) = some ⟨[], []⟩ := by
  have hindex : typed.module.typeIndices[importHostFunctions.length + j]? = some 0 := by
    show ((importHostFunctions.map (·.typeIndex)) ++
      (typed.units.map (TypedPou.func typed.emitter.link)).map (·.typeIndex))[_]? = some 0
    rw [List.getElem?_append_right (by rw [List.length_map]; omega), List.length_map,
      Nat.add_sub_cancel_left, List.getElem?_map, List.getElem?_map, h]
    rfl
  rw [Module.funcType, hindex]
  rfl

/-- The end of a call, from the end of its code. -/
theorem callMeans_body {symbols : SymbolTable} {mem₀ : Memory} {count : Nat} {n : Nest}
    {tail : Bool} {a : Signal RunError Store} {o : Outcome Fault State} (hclosed : a.Closed)
    (h : Simulates symbols mem₀ [] count n tail a o) :
    CallMeans symbols mem₀ a (bodyResult 0 o) := by
  cases a with
  | next ρ =>
    obtain ⟨s, rfl, hs⟩ := h
    exact ⟨s.mem, rfl, hs.mem⟩
  | ret ρ =>
    obtain ⟨s, rfl, hs⟩ := h
    exact ⟨s.mem, rfl, hs⟩
  | stop e =>
    obtain rfl : o = .abort e.fault := h
    rfl
  | timeout =>
    obtain rfl : o = .timeout := h
    rfl
  | exit ρ => exact hclosed
  | again ρ => exact hclosed

end Calls

section Meaning

variable {b : Build} {ast : CompilationUnit} {typed : TypedUnit} {m : Wasm.Module}
  {float : FloatOps} {hosts : List HostFunction} {answers : Answers} {p : Instance Bounds} {j : Nat}
  {unit : ProgramUnit} {pou : TypedPou} {ρ : Store} {mem : Memory}

/-- The variables of a plain POU lie above the reserved bytes. -/
theorem reserved_pou (hcheck : check b ast = .ok typed) (hunit : ast.units[j]? = some unit)
    (hpou : typed.units[j]? = some pou) (hplain : PlainPou ast unit pou) {name : String}
    {info : SymbolInfo} (hv : pou.symbols.Plain name info) : reservedBytes ≤ info.offset := by
  obtain ⟨pou', hpou', tc, tc', -, hdeclare, hsymbols, -⟩ :=
    (forall₂_getElem? (check_ok hcheck) j).1 unit hunit
  obtain rfl : pou' = pou := Option.some.inj (hpou'.symm.trans hpou)
  rw [hsymbols] at hv
  exact (placed_declare hdeclare hplain.within hplain.nonempty).2 hv

/-- Calling the function of a plain POU. -/
theorem call_pou (hcheck : check b ast = .ok typed) (hunit : ast.units[j]? = some unit)
    (hpou : typed.units[j]? = some pou) (hplain : PlainPou ast unit pou)
    (hp : programOf typed.module float hosts = some p) (hhosts : HostsAnswer hosts answers mem)
    (n d : Nat) (hsize : mem.size = pageSize) (hmem : Represents pou.symbols mem ρ mem) :
    CallMeans pou.symbols mem (runAll pou.symbols.types answers n unit.body ρ)
      (p.call n (d + 2) (importHostFunctions.length + j) [] mem) := by
  obtain ⟨pou', hpou', tc, tc', hfunctions, hdeclare, hsymbols, hbody⟩ :=
    (forall₂_getElem? (check_ok hcheck) j).1 unit hunit
  obtain rfl : pou' = pou := Option.some.inj (hpou'.symm.trans hpou)
  -- no POU of the unit takes the name of a host function
  have hknows : tc'.KnowsHosts := by
    intro name k hname
    rw [(declare_ok hdeclare).2, hfunctions]
    rcases lookup_callables ast name with ⟨_, _, _, hlast, -⟩ | ⟨-, hlookup⟩
    · exact absurd hlast.mem (hplain.hosts hname)
    · exact hlookup
  rw [hsymbols] at hmem ⊢
  have hplainAll := hplain.plain
  rw [hsymbols] at hplainAll
  obtain ⟨hplaced, habove⟩ := placed_declare hdeclare hplain.within hplain.nonempty
  have hset : Setting tc' (p.env (p.call n (d + 1))) typed.emitter.link answers mem :=
    ⟨hknows, by rw [hsize]; exact hplaced,
      answersCalls_program hp hhosts (fun ⟨_, h⟩ => h.sameImage habove) n d, by
        intro a
        rw [programOf_module hp]
        rfl⟩
  have hclosed : (runAll tc'.symbols.types answers n unit.body ρ).Closed :=
    closed_runAll unit.body hplainAll ρ
  obtain rfl := programOf_module hp
  -- the functions of the POUs come after the imported ones
  have hnone : hosts[importHostFunctions.length + j]? = none := by
    rw [List.getElem?_eq_none_iff, hhosts.length]
    omega
  have hrun : SimulatesCode tc'.symbols _ mem [] (stmtsLocals pou'.body) n .top true
      (runAll tc'.symbols.types answers n unit.body)
      (stmtsCode typed.emitter.link pou'.body Nest.top.loops 0) :=
    simulates_stmts hset unit.body hplainAll hbody hplain.fits (fun h => by cases h)
      (Nat.le_of_eq (Nat.zero_add _))
  have hstart :=
    hrun ρ ⟨[], (List.replicate (stmtsLocals pou'.body) ValType.i32).map ValType.zero, mem⟩
    (Related.mk' (by simp) hmem)
  rw [Instance.call]
  simp only [funcType_pou hpou, hnone]
  rw [hhosts.length, Nat.add_sub_cancel_left, List.getElem?_map, hpou]
  simp only [Option.map_some, List.nil_append]
  rw [execSeq_strip]
  exact callMeans_body hclosed hstart

/-- A call of the function of a plain POU in the emitted module does what the POU means with the
store that the memory represents, under the same bound on the passes of each loop: it ends where
the POU ends, leaves every byte outside of the plain variables as it was, and stops with the fault
for what the POU stops with. -/
theorem call_means (hcheck : check b ast = .ok typed) (hemit : emit (lower typed) = .ok m)
    (hunit : ast.units[j]? = some unit) (hpou : typed.units[j]? = some pou)
    (hplain : PlainPou ast unit pou) (hp : programOf m float hosts = some p)
    (hhosts : HostsAnswer hosts answers mem) (hsize : mem.size = pageSize)
    (hmem : Represents pou.symbols mem ρ mem) (n d : Nat) :
    CallMeans pou.symbols mem (runAll pou.symbols.types answers n unit.body ρ)
      (p.call n (d + 2) (importHostFunctions.length + j) [] mem) := by
  obtain rfl := emit_lower_ok hemit
  exact call_pou hcheck hunit hpou hplain hp hhosts n d hsize hmem

/-- A program that adds up the numbers that are less than an input. -/
def addingProgram : Program :=
  ⟨"Main", [⟨.var, false, [⟨"i", .dint, none⟩, ⟨"sum", .int, none⟩]⟩],
    [.forStmt "i" (.literal (.integer 1)) (.literal (.integer 5)) none
      [.ifStmt (.binary (.variable "i") .lt (.call "read_ai" [(none, .literal (.integer 0))]))
        [.assignment (.variable "sum") (.binary (.variable "sum") .add (.variable "i"))] [] none]]⟩

/-- The unit of that program. -/
def addingUnit : CompilationUnit := ⟨[.program addingProgram]⟩

/-- The program is a plain one. -/
theorem plainPou_adding (hcheck : check .debug addingUnit = .ok typed)
    (hpou : typed.units[0]? = some pou) : PlainPou addingUnit (.program addingProgram) pou := by
  have hdec : (check .debug addingUnit).toOption.any (fun typed => typed.units.all fun pou =>
      plainAll pou.symbols.types false addingProgram.body &&
        stmtsFit pou.body .top true) = true := by
    decide
  rw [hcheck] at hdec
  have hall := List.all_eq_true.1 hdec pou (List.mem_of_getElem? hpou)
  rw [Bool.and_eq_true] at hall
  refine ⟨?_, hall.1, hall.2, ?_, ?_⟩
  · intro name k hname
    rcases readArity_cases hname with ⟨rfl, -⟩ | ⟨rfl, -⟩ | ⟨rfl, -⟩ <;> decide
  · unfold ProgramUnit.WithinPage
    decide
  · decide

/-- The zeroed memory represents the store of zeros. -/
theorem represents_zero (symbols : SymbolTable) (size : Nat) :
    Represents symbols (.zeroed size) (fun _ => 0) (.zeroed size) where
  size := rfl
  value := by
    intro name info hv
    have hzero : (Memory.zeroed size).value info.offset info.dataType.storage = 0 :=
      Memory.value_zeroed _ _ _
    have hplain := hv.plain
    rw [hzero]
    cases hty : info.dataType with
    | bool | sint | int | dint => rfl
    | _ =>
      rw [hty] at hplain
      cases hplain
  truth := fun _ _ => .inl rfl
  outside := fun _ _ => rfl

/-- From the zeroed memory the program adds up for any input. -/
theorem call_means_adding : ∃ typed m pou p, check .debug addingUnit = .ok typed ∧
    emit (lower typed) = .ok m ∧ typed.units[0]? = some pou ∧
      programOf m ⟨fun _ _ _ => 0, fun _ _ _ => 0, fun _ _ _ => false, fun _ _ _ => false⟩
        (List.replicate 5 fun _ mem => some ([.i32 4], mem)) = some p ∧
      CallMeans pou.symbols (.zeroed pageSize)
        (runAll pou.symbols.types (fun _ _ => some 4) 10 addingProgram.body fun _ => 0)
        (p.call 10 2 5 [] (.zeroed pageSize)) := by
  obtain ⟨typed, m, hcheck, hemit⟩ := compile_ok .debug addingUnit (by decide)
  obtain ⟨pou, hpou, -⟩ := (forall₂_getElem? (check_ok hcheck) 0).1 _ rfl
  have hbodies := module_bodies typed
  obtain rfl := emit_lower_ok hemit
  obtain ⟨p, hp⟩ : ∃ p, programOf typed.module
      ⟨fun _ _ _ => 0, fun _ _ _ => 0, fun _ _ _ => false, fun _ _ _ => false⟩
      (List.replicate 5 fun _ mem => some ([.i32 4], mem)) = some p := by
    rw [programOf, hbodies]
    exact ⟨_, rfl⟩
  refine ⟨typed, _, pou, p, hcheck, hemit, hpou, hp, ?_⟩
  refine call_means hcheck hemit rfl hpou (plainPou_adding hcheck hpou) hp ⟨rfl, ?_⟩ rfl
    (represents_zero _ _) 10 0
  intro i k function f himport hf hname xs mem _ _
  obtain rfl := List.eq_of_mem_replicate (List.mem_of_getElem? hf)
  rfl

end Meaning

end VirtualPlc.Compiler
