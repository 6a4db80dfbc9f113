import VirtualPlc.Compiler.Access
import VirtualPlc.Compiler.Emission
import VirtualPlc.Compiler.Layout

/-!
# The memory map of a compilation unit

What the layout of single variables means for the one memory of the emitted module: within a POU
(`laysOut_iff`), between two POUs (`storageSeparate_iff`), and against the declared number of
pages (`variablesFit_iff`).
-/

set_option autoImplicit false

namespace VirtualPlc.Compiler

open VirtualPlc.Word VirtualPlc.Wasm VirtualPlc.Control

/-! ## Reading a successful declaration -/

theorem layoutSizes_sizes {b : Build} : ∀ {sizes : List Nat} {next : Nat} {spans : List Span}
    {stop : Nat}, layoutSizes b next sizes = .ok (spans, stop) → spans.map Span.size = sizes
  | [], _, _, _, h => by
    cases h
    rfl
  | s :: rest, next, spans, stop, h => by
    obtain ⟨offset, -, h⟩ := bind_eq_ok.1 h
    obtain ⟨n, -, h⟩ := bind_eq_ok.1 h
    obtain ⟨⟨spans', stop'⟩, hr, h⟩ := bind_eq_ok.1 h
    cases h
    rw [List.map_cons, layoutSizes_sizes hr]

theorem types_map_storage (unit : ProgramUnit) :
    unit.types.map DataType.storage = unit.resultSpan.map Span.size ++ unit.sizes := by
  rw [ProgramUnit.types, ProgramUnit.resultSpan, ProgramUnit.sizes]
  cases unit.result with
  | none => simp [Function.comp_def]
  | some ty => simp [Function.comp_def]

section Declares

variable {b : Build} {unit : ProgramUnit} {tc' : TypeChecker} {spans : List Span}

theorem Declares.map_size (h : Declares b unit tc' spans) :
    (unit.resultSpan ++ spans).map Span.size = unit.types.map DataType.storage := by
  rw [types_map_storage, List.map_append, layoutSizes_sizes h.layout]

theorem Declares.length (h : Declares b unit tc' spans) :
    unit.types.length = (unit.resultSpan ++ spans).length := by
  have hl := congrArg List.length h.map_size
  simpa using hl.symm

theorem Declares.map_span (h : Declares b unit tc' spans) :
    tc'.symbols.infos.map SymbolInfo.span = unit.resultSpan ++ spans := by
  have hm := congrArg (List.map Prod.snd) h.infos
  rw [List.map_map, List.map_snd_zip (Nat.le_of_eq h.length.symm)] at hm
  exact hm

theorem Declares.map_dataType (h : Declares b unit tc' spans) :
    tc'.symbols.infos.map SymbolInfo.dataType = unit.types := by
  have hm := congrArg (List.map Prod.fst) h.infos
  rw [List.map_map, List.map_fst_zip (Nat.le_of_eq h.length)] at hm
  exact hm

theorem Declares.mem_zip (h : Declares b unit tc' spans) {info : SymbolInfo}
    (hi : info ∈ tc'.symbols.infos) :
    (info.dataType, info.span) ∈ unit.types.zip (unit.resultSpan ++ spans) := by
  rw [← h.infos]
  exact List.mem_map.2 ⟨info, hi, rfl⟩

/-- The registered size is the storage of the type. -/
theorem Declares.size_eq (h : Declares b unit tc' spans) {info : SymbolInfo}
    (hi : info ∈ tc'.symbols.infos) : info.size = info.dataType.storage := by
  have hmap : tc'.symbols.infos.map SymbolInfo.size =
      tc'.symbols.infos.map fun info => info.dataType.storage := by
    calc tc'.symbols.infos.map SymbolInfo.size
        = (tc'.symbols.infos.map SymbolInfo.span).map Span.size := by rw [List.map_map]; rfl
      _ = unit.types.map DataType.storage := by rw [h.map_span, h.map_size]
      _ = tc'.symbols.infos.map fun info => info.dataType.storage := by
        rw [← h.map_dataType, List.map_map]; rfl
  exact List.map_inj_left.1 hmap info hi

end Declares

/-! ## Layout within one POU -/

/-- Natural alignment of the scalar element of a type. -/
def DataType.scalarAlignment : DataType → Nat
  | .bool | .sint | .usint | .byte | .string _ => 1
  | .int | .uint | .word | .wString _ => 2
  | .dint | .udint | .dword | .real | .named _ => 4
  | .lint | .ulint | .lword | .lreal | .time | .date | .timeOfDay | .dateTime => 8
  | .array _ _ elementType => elementType.scalarAlignment

theorem scalarAlignment_spec : ∀ ty : DataType,
    (∃ k, ty.scalarAlignment = 2 ^ k ∧ k ≤ 3) ∧ (∀ s, ty.bytes = some s → ty.scalarAlignment ∣ s) ∧
      (ty.bytes = none → ty.scalarAlignment ∣ 4) := by
  intro ty
  -- a type of known size `n` with alignment `2 ^ k`
  have elementary : ∀ {ty : DataType} {n k : Nat}, ty.bytes = some n → ty.scalarAlignment = 2 ^ k →
      k ≤ 3 → 2 ^ k ∣ n → (∃ k, ty.scalarAlignment = 2 ^ k ∧ k ≤ 3) ∧
        (∀ s, ty.bytes = some s → ty.scalarAlignment ∣ s) ∧
          (ty.bytes = none → ty.scalarAlignment ∣ 4) := by
    intro ty n k hn hk hk3 hdvd
    refine ⟨⟨k, hk, hk3⟩, ?_, ?_⟩
    · intro s hs
      rw [hn] at hs
      cases hs
      rwa [hk]
    · intro hs
      rw [hn] at hs
      cases hs
  induction ty with
  | array lower upper e ih =>
    -- the alignment of the element divides its size, hence the product, also modulo `2 ^ 64`
    obtain ⟨⟨k, hk, hk3⟩, hsome, hnone⟩ := ih
    refine ⟨⟨k, hk, hk3⟩, ?_, ?_⟩
    · intro s hs
      obtain ⟨t, ht, rfl⟩ := Option.map_eq_some_iff.1 hs
      have hdvd : e.scalarAlignment ∣ usizeCard := by
        rw [hk]
        exact Nat.pow_dvd_pow 2 (by omega)
      exact (Nat.dvd_mod_iff hdvd).2 (Nat.dvd_mul_right_of_dvd (hsome t ht) _)
    · intro hs
      exact hnone (Option.map_eq_none_iff.1 hs)
  | string len =>
    refine ⟨⟨0, rfl, by omega⟩, ?_, ?_⟩
    · exact fun _ _ => Nat.one_dvd _
    · exact fun _ => Nat.one_dvd _
  | wString len =>
    refine ⟨⟨1, rfl, by omega⟩, ?_, ?_⟩
    · intro s hs
      cases len with
      | none => cases hs
      | some n =>
        cases hs
        have hdvd : 2 ∣ usizeCard := by decide
        exact (Nat.dvd_mod_iff hdvd).2 (Nat.dvd_mul_left 2 (n + 1))
    · intro _
      show 2 ∣ 4
      decide
  | named name =>
    refine ⟨⟨2, rfl, by omega⟩, ?_, ?_⟩
    · intro s hs
      cases hs
    · exact fun _ => Nat.dvd_refl 4
  | bool | sint | usint | byte => exact elementary (k := 0) rfl rfl (by omega) (by decide)
  | int | uint | word => exact elementary (k := 1) rfl rfl (by omega) (by decide)
  | dint | udint | dword | real => exact elementary (k := 2) rfl rfl (by omega) (by decide)
  | lint | ulint | lword | lreal | time | date | timeOfDay | dateTime =>
    exact elementary (k := 3) rfl rfl (by omega) (by decide)

theorem scalarAlignment_dvd_storage (ty : DataType) : ty.scalarAlignment ∣ ty.storage := by
  obtain ⟨-, hsome, hnone⟩ := scalarAlignment_spec ty
  rw [DataType.storage]
  cases h : ty.bytes with
  | none => exact hnone h
  | some s => exact hsome s h

theorem scalarAlignment_dvd_place (ty : DataType) (next : Nat) :
    ty.scalarAlignment ∣ place next ty.storage := by
  obtain ⟨⟨k, hk, hk3⟩, -, -⟩ := scalarAlignment_spec ty
  have hs := scalarAlignment_dvd_storage ty
  rw [hk] at hs ⊢
  exact dvd_place hs (Nat.pow_dvd_pow 2 hk3)

theorem scalarAlignment_dvd_pack : ∀ (types : List DataType) (next : Nat),
    ∀ p ∈ types.zip (pack next (types.map DataType.storage)), p.1.scalarAlignment ∣ p.2.offset
  | [], _, _, h => by cases h
  | ty :: rest, next, p, h => by
    rw [List.map_cons, pack, List.zip_cons_cons] at h
    rcases List.mem_cons.1 h with rfl | h
    · exact scalarAlignment_dvd_place ty next
    · exact scalarAlignment_dvd_pack rest _ p h

/-- The layout of a scope: above the reserved bytes, without overlaps, aligned. -/
structure LayoutSound (symbols : SymbolTable) : Prop where
  aboveReserved : ∀ info ∈ symbols.infos, reservedBytes ≤ info.offset
  disjoint : symbols.infos.Pairwise fun i j => i.span.Disjoint j.span
  aligned : ∀ info ∈ symbols.infos, info.dataType.scalarAlignment ∣ info.offset

/-- No step of the layout arithmetic of a POU leaves its machine type (no element count is negative,
and a build that checks for overflow accepts), and the layout is sound. -/
structure LaysOut (b : Build) (tc : TypeChecker) (unit : ProgramUnit) : Prop where
  forward : ∀ ty ∈ unit.types, ty.Forward
  checked : ∃ tc', tc.declare .debug unit = .ok tc'
  sound : ∃ tc', tc.declare b unit = .ok tc' ∧ LayoutSound tc'.symbols

/-- Every size is exact, no declared variable is empty, and the variables pack below `2 ^ 64`. -/
structure LayoutFits (unit : ProgramUnit) : Prop where
  exact : ∀ ty ∈ unit.types, ty.Exact
  nonempty : ∀ s ∈ unit.sizes, s ≠ 0
  packEnd_lt : packEnd unit.start unit.sizes < usizeCard

theorem resultSpan_sound (unit : ProgramUnit) : ∀ t ∈ unit.resultSpan,
    reservedBytes ≤ t.offset ∧ t.stop ≤ unit.start := by
  intro t ht
  rw [ProgramUnit.resultSpan] at ht
  rw [ProgramUnit.start]
  cases hr : unit.result with
  | none =>
    rw [hr] at ht
    cases ht
  | some ty =>
    rw [hr] at ht
    rcases List.mem_singleton.1 ht with rfl
    exact ⟨Nat.le_refl _, Nat.le_refl _⟩

theorem reserved_le_start (unit : ProgramUnit) : reservedBytes ≤ unit.start := by
  rw [ProgramUnit.start]
  cases unit.result with
  | none => exact Nat.le_refl _
  | some ty => exact Nat.le_add_right _ _

theorem spans_sound {unit : ProgramUnit} (h : ∀ s ∈ unit.sizes, s ≠ 0) :
    (∀ t ∈ unit.spans, reservedBytes ≤ t.offset) ∧ unit.spans.Pairwise Span.Disjoint := by
  obtain ⟨hge, hpair⟩ := pack_sound unit.sizes unit.start h
  have hstart := reserved_le_start unit
  constructor
  · intro t ht
    rcases List.mem_append.1 ht with ht | ht
    · exact (resultSpan_sound unit t ht).1
    · exact Nat.le_trans hstart (hge t ht)
  · rw [ProgramUnit.spans, List.pairwise_append]
    refine ⟨?_, hpair, ?_⟩
    · rw [ProgramUnit.resultSpan]
      cases unit.result with
      | none => exact .nil
      | some ty => exact List.pairwise_singleton _ _
    · intro s hs t ht
      exact Span.disjoint_of_le (Nat.le_trans (resultSpan_sound unit s hs).2 (hge t ht))

theorem spans_aligned (unit : ProgramUnit) :
    ∀ p ∈ unit.types.zip unit.spans, p.1.scalarAlignment ∣ p.2.offset := by
  have hdecl : unit.sizes =
      (unit.declarations.map fun d => d.decl.dataType).map DataType.storage := by
    rw [ProgramUnit.sizes, List.map_map]
    rfl
  have hpack := scalarAlignment_dvd_pack (unit.declarations.map fun d => d.decl.dataType) unit.start
  rw [← hdecl] at hpack
  rw [ProgramUnit.types, ProgramUnit.spans, ProgramUnit.resultSpan]
  cases unit.result with
  | none => simpa using hpack
  | some ty =>
    intro p hp
    rcases List.mem_cons.1 hp with rfl | hp
    · obtain ⟨⟨k, hk, hk3⟩, -, -⟩ := scalarAlignment_spec ty
      show ty.scalarAlignment ∣ reservedBytes
      rw [hk]
      exact Nat.dvd_trans (Nat.pow_dvd_pow 2 hk3) (by decide : 2 ^ 3 ∣ reservedBytes)
    · exact hpack p hp

theorem Declares.spans_eq_pack {b : Build} {unit : ProgramUnit} {tc' : TypeChecker}
    {spans : List Span} (h : Declares b unit tc' spans) (hs : ∀ s ∈ unit.sizes, s ≠ 0)
    (hend : packEnd unit.start unit.sizes < usizeCard) : unit.resultSpan ++ spans = unit.spans := by
  have hstart := packEnd_ge unit.sizes unit.start hs
  have hlayout := h.layout
  rw [Nat.mod_eq_of_lt (by omega), layoutSizes_eq hs hend, Except.ok.injEq,
    Prod.mk.injEq] at hlayout
  rw [ProgramUnit.spans, hlayout.1]

theorem layoutSound_of_spans {b : Build} {unit : ProgramUnit} {tc' : TypeChecker}
    {spans : List Span} (h : Declares b unit tc' spans) (hs : ∀ s ∈ unit.sizes, s ≠ 0)
    (heq : unit.resultSpan ++ spans = unit.spans) : LayoutSound tc'.symbols := by
  obtain ⟨hge, hpair⟩ := spans_sound hs
  have hmap := h.map_span
  rw [heq] at hmap
  refine ⟨?_, ?_, ?_⟩
  · intro info hi
    apply hge info.span
    rw [← hmap]
    exact List.mem_map.2 ⟨info, hi, rfl⟩
  · rw [← hmap, List.pairwise_map] at hpair
    exact hpair
  · intro info hi
    have hmem := h.mem_zip hi
    rw [heq] at hmem
    exact spans_aligned unit _ hmem

/-- The layout of a POU is computed without overflow, above the reserved bytes, disjoint and
aligned, exactly when every size is exact, no declared variable is empty, and the variables pack
below `2 ^ 64`. -/
theorem laysOut_iff (b : Build) (tc : TypeChecker) (unit : ProgramUnit) :
    LaysOut b tc unit ↔ LayoutFits unit := by
  constructor
  · rintro ⟨hforward, ⟨tc', hd⟩, -⟩
    obtain ⟨⟨spans, h⟩, -⟩ := declare_ok hd
    have hexact : ∀ ty ∈ unit.types, ty.Exact := fun ty hty =>
      exact_of_debug (h.sizes ty hty) (hforward ty hty)
    have hstart : unit.start < usizeCard := by
      rw [ProgramUnit.start]
      cases hr : unit.result with
      | none =>
        show reservedBytes < usizeCard
        decide
      | some ty => exact (usizeAdd_debug.1 (h.start ty hr)).1
    have hlayout := h.layout
    rw [Nat.mod_eq_of_lt hstart] at hlayout
    obtain ⟨hs, hend⟩ := layoutSizes_debug hstart hlayout
    exact ⟨hexact, hs, hend⟩
  · rintro ⟨hexact, hs, hend⟩
    obtain ⟨tcd, hd⟩ := declare_of_fits .debug tc hexact hs hend
    obtain ⟨tc', h'⟩ := declare_of_fits b tc hexact hs hend
    obtain ⟨⟨spans, h⟩, -⟩ := declare_ok h'
    refine ⟨fun ty hty => (hexact ty hty).forward, ⟨tcd, hd⟩, tc', h', ?_⟩
    exact layoutSound_of_spans h hs (h.spans_eq_pack hs hend)

/-- A POU that declares an array without elements. -/
def emptyArrayProgram : ProgramUnit :=
  .program ⟨"Main", [⟨.var, false, [⟨"a", .array 1 0 .int, none⟩]⟩], []⟩

/-- A release build accepts an array without elements and puts it at address 0. -/
theorem laysOut_fails : (check .release ⟨[emptyArrayProgram]⟩).toBool = true ∧
    (TypeChecker.new.declare .release emptyArrayProgram).map
      (fun tc => tc.symbols.infos.map (·.offset)) = .ok [0] ∧
    ¬ LaysOut .release .new emptyArrayProgram := by
  refine ⟨by decide, rfl, ?_⟩
  rintro ⟨-, ⟨tc', h⟩, -⟩
  have hpanic : TypeChecker.new.declare .debug emptyArrayProgram =
      .error (.panic "attempt to subtract with overflow") := rfl
  rw [hpanic] at h
  cases h

/-! ## Variables against the declared pages -/

/-- Write the value `v` to a variable, as an assignment does. -/
def storeCode (link : String → Bool → Nat) (info : SymbolInfo) (v : Value) : PlcCode :=
  addressCode link (.variable info.name info.offset info.dataType) ++
    ops [.const v, storeOp info.dataType]

/-- Read a variable. -/
def loadCode (link : String → Bool → Nat) (info : SymbolInfo) : PlcCode :=
  exprCode link (.variable info.name info.offset info.dataType)

/-- A variable lies in the first `limit` bytes, and no access to it traps in a memory of that size.
-/
structure FitsMemory (limit : Nat) (info : SymbolInfo) : Prop where
  inside : info.span.stop ≤ limit
  load : ∀ (env : Env Bounds) (link : String → Bool → Nat) (n : Nat) (s : State),
    s.mem.size = limit → execSeq (machine env) n (loadCode link info) s ≠ .abort .trap
  store : ∀ (env : Env Bounds) (link : String → Bool → Nat) (n : Nat) (s : State) (v : Value),
    s.mem.size = limit → execSeq (machine env) n (storeCode link info v) s ≠ .abort .trap

/-- Every variable of a checked unit fits the memory that the module declares. -/
def VariablesFit (typed : TypedUnit) (m : Wasm.Module) : Prop :=
  ∀ pou ∈ typed.units, ∀ info ∈ pou.symbols.infos,
    FitsMemory (m.memory.minimum * pageSize) info

/-- The variables of a POU, packed from the reserved bytes on, end within one page, also when an
access wider than the variable is counted. -/
def ProgramUnit.WithinPage (unit : ProgramUnit) : Prop :=
  ∀ p ∈ unit.types.zip unit.spans, p.2.offset + max p.2.size p.1.accessWidth ≤ pageSize

theorem execSeq_storeCode (env : Env Bounds) (link : String → Bool → Nat) (n : Nat)
    (info : SymbolInfo) (v : Value) (s : State) (ho : info.offset < 2 ^ 32) :
    execSeq (machine env) n (storeCode link info v) s =
      if v.type = info.dataType.valType then
        match s.mem.write info.offset info.dataType.accessWidth v.bits with
        | none => .abort .trap
        | some mem =>
          if env.guarded info.offset info.dataType.accessWidth then .abort .guarded
          else .normal { s with mem := mem }
      else .abort .stuck := by
  have haddr : (BitVec.ofNat 32 info.offset).toNat + 0 = info.offset := by
    rw [Nat.add_zero, BitVec.toNat_ofNat, Nat.mod_eq_of_lt ho]
  obtain ⟨st, l, m⟩ := s
  simp only [storeCode, addressCode, execSeq_append, execSeq_ops_cons, execSeq_ops_nil,
    machine_step, stepOp_const, State.push_mk, Outcome.andThen_normal, stepOp_storeOp,
    State.storeWith, State.pop_cons, State.popI32_cons, haddr]
  by_cases hv : v.type = info.dataType.valType
  · simp only [if_pos hv]
    cases m.write info.offset info.dataType.accessWidth v.bits with
    | none => rfl
    | some mem => cases env.guarded info.offset info.dataType.accessWidth <;> rfl
  · simp only [if_neg hv]
    rfl

theorem fitsMemory_iff {limit : Nat} (hl : limit < 2 ^ 32) (info : SymbolInfo) :
    FitsMemory limit info ↔
      info.offset + max info.size info.dataType.accessWidth ≤ limit := by
  have hw := info.dataType.accessWidth_pos
  constructor
  · rintro ⟨hin, hload, -⟩
    have hstop : info.offset + info.size ≤ limit := hin
    have hrun := hload bareEnv (fun _ _ => 0) 0 ⟨[], [], .zeroed limit⟩ rfl
    rw [loadCode, execSeq_variable, asU32_of_lt (by omega)] at hrun
    by_cases hfit : info.offset + info.dataType.accessWidth ≤ limit
    · omega
    · rw [Memory.read_eq_none (by simpa using hfit)] at hrun
      exact absurd rfl hrun
  · intro h
    have ho : info.offset < 2 ^ 32 := by omega
    refine ⟨?_, ?_, ?_⟩
    · show info.offset + info.size ≤ limit
      omega
    · rintro env link n ⟨st, l, m⟩ hsize
      have hfit : info.offset + info.dataType.accessWidth ≤ m.size := by
        show _ ≤ (⟨st, l, m⟩ : State).mem.size
        rw [hsize]
        omega
      rw [loadCode, execSeq_variable, asU32_of_lt ho, Memory.read_eq hfit]
      intro h'
      cases h'
    · rintro env link n s v hsize
      rw [execSeq_storeCode env link n info v s ho, Memory.write_eq (by rw [hsize]; omega)]
      by_cases hv : v.type = info.dataType.valType
      · rw [if_pos hv]
        show (if env.guarded info.offset info.dataType.accessWidth = true then _ else _) ≠ _
        cases env.guarded info.offset info.dataType.accessWidth with
        | true => exact fun h' => nomatch h'
        | false => exact fun h' => nomatch h'
      · rw [if_neg hv]
        intro h'
        cases h'

theorem pageSize_lt : pageSize < 2 ^ 32 := by decide

/-- Within a page, the checker's spans are those of `pack`. -/
theorem Declares.spans_within {b : Build} {unit : ProgramUnit} {tc' : TypeChecker}
    {spans : List Span} (h : Declares b unit tc' spans)
    (hin : (∀ t ∈ unit.resultSpan ++ spans, t.stop ≤ pageSize) ∨
      ∀ t ∈ unit.spans, t.stop ≤ pageSize) :
    unit.resultSpan ++ spans = unit.spans := by
  have hpage : pageSize + 16 < usizeCard := by decide
  have hstart : unit.start ≤ pageSize := by
    rw [ProgramUnit.start]
    cases hr : unit.result with
    | none =>
      show reservedBytes ≤ pageSize
      decide
    | some ty =>
      have hmem : (⟨reservedBytes, ty.storage⟩ : Span) ∈ unit.resultSpan := by
        rw [ProgramUnit.resultSpan, hr]
        exact List.mem_singleton_self _
      rcases hin with hin | hin
      · exact hin _ (List.mem_append_left _ hmem)
      · exact hin _ (List.mem_append_left _ hmem)
  have hlayout := h.layout
  rw [Nat.mod_eq_of_lt (by omega)] at hlayout
  have heq := layoutSizes_within hpage hstart hlayout (by
    rcases hin with hin | hin
    · exact .inl fun t ht => hin t (List.mem_append_right _ ht)
    · exact .inr fun t ht => hin t (List.mem_append_right _ ht))
  rw [ProgramUnit.spans, heq]

theorem declares_fits_iff {b : Build} {unit : ProgramUnit} {tc' : TypeChecker} {spans : List Span}
    (h : Declares b unit tc' spans) :
    (∀ info ∈ tc'.symbols.infos, FitsMemory pageSize info) ↔ unit.WithinPage := by
  have hsize := fun info (hi : info ∈ tc'.symbols.infos) => h.size_eq hi
  constructor
  · intro hfit
    have hin : ∀ t ∈ unit.resultSpan ++ spans, t.stop ≤ pageSize := by
      intro t ht
      rw [← h.map_span] at ht
      obtain ⟨info, hi, rfl⟩ := List.mem_map.1 ht
      exact (hfit info hi).inside
    intro p hp
    rw [← h.spans_within (.inl hin), ← h.infos] at hp
    obtain ⟨info, hi, rfl⟩ := List.mem_map.1 hp
    exact (fitsMemory_iff pageSize_lt info).1 (hfit info hi)
  · intro hin info hi
    have hspans : ∀ t ∈ unit.spans, t.stop ≤ pageSize := by
      intro t ht
      have hlen : unit.types.length = unit.spans.length := by
        have hl : (pack unit.start unit.sizes).length = unit.sizes.length := by
          have hs := congrArg List.length (pack_sizes unit.sizes unit.start)
          simpa using hs
        have hm := congrArg List.length (types_map_storage unit)
        simp only [List.length_map, List.length_append] at hm
        rw [ProgramUnit.spans, List.length_append, hl, hm]
      obtain ⟨i, hi, rfl⟩ := List.mem_iff_getElem.1 ht
      have hmem : (unit.types[i], unit.spans[i]) ∈ unit.types.zip unit.spans := by
        rw [List.mem_iff_getElem]
        refine ⟨i, by simp [hlen, hi], by simp⟩
      have hp := hin _ hmem
      show unit.spans[i].offset + unit.spans[i].size ≤ pageSize
      simp only at hp
      omega
    apply (fitsMemory_iff pageSize_lt info).2
    have hmem := h.mem_zip hi
    rw [h.spans_within (.inr hspans)] at hmem
    exact hin _ hmem

theorem forall₂_getElem? {α β : Type} {R : α → β → Prop} {as : List α} {bs : List β}
    (h : List.Forall₂ R as bs) (i : Nat) :
    (∀ a, as[i]? = some a → ∃ b, bs[i]? = some b ∧ R a b) ∧
      (∀ b, bs[i]? = some b → ∃ a, as[i]? = some a ∧ R a b) := by
  induction h generalizing i with
  | nil =>
    constructor
    · intro a ha
      simp at ha
    · intro b hb
      simp at hb
  | @cons a b as bs hab _ ih =>
    cases i with
    | zero =>
      constructor
      · intro a' ha
        simp only [List.getElem?_cons_zero, Option.some.injEq] at ha
        exact ⟨b, rfl, ha ▸ hab⟩
      · intro b' hb
        simp only [List.getElem?_cons_zero, Option.some.injEq] at hb
        exact ⟨a, rfl, hb ▸ hab⟩
    | succ i => simpa using ih i

/-- Properties of checked POUs, from properties of declared ones. -/
theorem forall_pous_iff {b : Build} {functions : List (String × FunctionSignature)}
    {units : List ProgramUnit} {pous : List TypedPou} {P : TypedPou → Prop} {Q : ProgramUnit → Prop}
    (h : List.Forall₂ (Checks b functions) units pous)
    (hPQ : ∀ unit pou, Checks b functions unit pou → (P pou ↔ Q unit)) :
    (∀ pou ∈ pous, P pou) ↔ ∀ unit ∈ units, Q unit := by
  induction h with
  | nil => simp
  | cons h1 _ ih => simp [ih, hPQ _ _ h1]

theorem checks_declares {b : Build} {functions : List (String × FunctionSignature)}
    {unit : ProgramUnit} {pou : TypedPou} (h : Checks b functions unit pou) :
    ∃ tc' spans, Declares b unit tc' spans ∧ pou.symbols = tc'.symbols := by
  obtain ⟨tc, tc', -, hd, hs, -⟩ := h
  obtain ⟨⟨spans, h'⟩, -⟩ := declare_ok hd
  exact ⟨tc', spans, h', hs⟩

theorem checks_fits_iff {b : Build} {functions : List (String × FunctionSignature)}
    {unit : ProgramUnit} {pou : TypedPou} (h : Checks b functions unit pou) :
    (∀ info ∈ pou.symbols.infos, FitsMemory pageSize info) ↔ unit.WithinPage := by
  obtain ⟨tc', spans, hd, hs⟩ := checks_declares h
  rw [hs]
  exact declares_fits_iff hd

theorem memory_limit (typed : TypedUnit) : typed.module.memory.minimum * pageSize = pageSize := by
  show 1 * pageSize = pageSize
  exact Nat.one_mul _

/-- The variables of an accepted unit fit the memory of its module exactly when the variables of
each POU, packed from the reserved bytes on, end within one page. -/
theorem variablesFit_iff {b : Build} {ast : CompilationUnit} {typed : TypedUnit} {m : Wasm.Module}
    (h : check b ast = .ok typed) (hm : emit (lower typed) = .ok m) :
    VariablesFit typed m ↔ ∀ unit ∈ ast.units, unit.WithinPage := by
  obtain rfl := emit_lower_ok hm
  apply forall_pous_iff (check_ok h)
  intro unit pou hc
  rw [memory_limit]
  exact checks_fits_iff hc

/-- A unit with one program that declares the given variables. -/
def declarationUnit (decls : List VarDecl) : CompilationUnit :=
  ⟨[.program ⟨"Main", [⟨.var, false, decls⟩], []⟩]⟩

theorem compile_ok (b : Build) (ast : CompilationUnit) (h : (compile b ast).toBool = true) :
    ∃ typed m, check b ast = .ok typed ∧ emit (lower typed) = .ok m := by
  cases hc : compile b ast with
  | error err =>
    rw [hc] at h
    cases h
  | ok m =>
    obtain ⟨typed, ht, hm⟩ := bind_eq_ok.1 hc
    exact ⟨typed, m, ht, hm⟩

theorem variablesFit_small : ∃ typed m,
    check .debug (declarationUnit [⟨"x", .int, none⟩, ⟨"y", .lint, none⟩]) = .ok typed ∧
      emit (lower typed) = .ok m ∧ VariablesFit typed m := by
  obtain ⟨typed, m, ht, hm⟩ := compile_ok .debug
    (declarationUnit [⟨"x", .int, none⟩, ⟨"y", .lint, none⟩]) (by decide)
  refine ⟨typed, m, ht, hm, (variablesFit_iff ht hm).2 ?_⟩
  intro unit hu
  rcases List.mem_singleton.1 hu with rfl
  unfold ProgramUnit.WithinPage
  decide

/-- An accepted array of 20000 DINT ends beyond the single page of its module. -/
theorem variablesFit_fails : ¬ ∀ (b : Build) (ast : CompilationUnit) (typed : TypedUnit)
    (m : Wasm.Module), check b ast = .ok typed → emit (lower typed) = .ok m →
      VariablesFit typed m := by
  intro h
  obtain ⟨typed, m, ht, hm⟩ := compile_ok .debug
    (declarationUnit [⟨"a", .array 1 20000 .dint, none⟩]) (by decide)
  have hfit := h .debug _ typed m ht hm
  obtain rfl := emit_lower_ok hm
  obtain ⟨pou, hpou, hc⟩ := (forall₂_getElem? (check_ok ht) 0).1 _ rfl
  have hin := (checks_fits_iff hc).1 fun info hi => by
    have hi' := hfit pou (List.mem_of_getElem? hpou) info hi
    rwa [memory_limit] at hi'
  unfold ProgramUnit.WithinPage at hin
  revert hin
  decide

/-! ## Storage of different POUs -/

/-- An assignment to `x` leaves the bytes of `y` unchanged. -/
def AssignmentKeeps (x y : SymbolInfo) : Prop :=
  ∀ (env : Env Bounds) (link : String → Bool → Nat) (n : Nat) (s s' : State) (v : Value),
    execSeq (machine env) n (storeCode link x v) s = .normal s' →
    s'.mem.value y.offset y.size = s.mem.value y.offset y.size

/-- The variables of different POUs do not overlap, and assignments to those of one POU leave those
of the others unchanged. -/
def StorageSeparate (typed : TypedUnit) : Prop :=
  ∀ (i j : Nat) (A B : TypedPou), typed.units[i]? = some A → typed.units[j]? = some B → i ≠ j →
    ∀ x ∈ A.symbols.infos, ∀ y ∈ B.symbols.infos, x.span.Disjoint y.span ∧ AssignmentKeeps x y

/-- If one POU has a nonempty variable, no other POU has a variable. -/
def SingleOwner (ast : CompilationUnit) : Prop :=
  ∀ (i j : Nat) (U V : ProgramUnit), ast.units[i]? = some U → ast.units[j]? = some V → i ≠ j →
    (∃ ty ∈ U.types, ty.storage ≠ 0) → V.types = []

theorem value_pos {m : Memory} {a n : Nat} (hn : n ≠ 0) (hb : (m.byte a).toNat ≠ 0) :
    m.value a n ≠ 0 := by
  cases n with
  | zero => exact absurd rfl hn
  | succ n =>
    rw [Memory.value]
    omega

/-- The value of a type with only the lowest bit set. -/
def unitValue : ValType → Value
  | .i32 => .i32 1
  | .i64 => .i64 1
  | .f32 => .f32 1
  | .f64 => .f64 1

/-- Two variables that start at the same address are not kept apart. -/
theorem not_assignmentKeeps {x y : SymbolInfo} (hx : x.offset = reservedBytes)
    (hy : y.offset = reservedBytes) (hsize : y.size ≠ 0) : ¬ AssignmentKeeps x y := by
  intro h
  have hw := x.dataType.accessWidth_pos
  have hw8 : x.dataType.accessWidth ≤ 8 := by cases x.dataType <;> simp [DataType.accessWidth]
  have hres : reservedBytes = 256 := rfl
  have hbits : (unitValue x.dataType.valType).bits = 1 := by cases x.dataType.valType <;> rfl
  have htype : (unitValue x.dataType.valType).type = x.dataType.valType := by
    cases x.dataType.valType <;> rfl
  have hrun := execSeq_storeCode bareEnv (fun _ _ => 0) 0 x (unitValue x.dataType.valType)
    ⟨[], [], .zeroed pageSize⟩ (by omega)
  rw [if_pos htype, hbits, Memory.write_eq (by rw [hx, hres]; simp [pageSize]; omega)] at hrun
  have hguard : bareEnv.guarded x.offset x.dataType.accessWidth = false :=
    Env.guarded_eq_false fun _ _ _ => rfl
  simp only [hguard, Bool.false_eq_true, if_false] at hrun
  have hkeep := h bareEnv (fun _ _ => 0) 0 _ _ _ hrun
  rw [Memory.value_zeroed] at hkeep
  refine value_pos hsize ?_ hkeep
  rw [Memory.byte_set, if_pos ⟨by omega, by omega⟩, hx, hy, Nat.sub_self]
  decide

theorem assignmentKeeps_of_empty {x y : SymbolInfo} (h : y.size = 0) : AssignmentKeeps x y := by
  intro env link n s s' v _
  rw [h]
  rfl

theorem place_reserved (size : Nat) (h : size ≠ 0) : place reservedBytes size = reservedBytes := by
  rw [place, if_neg h]
  exact roundUp_of_and_eq_zero (k := 8) (by decide) (by omega)

theorem layoutSizes_head {b : Build} {s : Nat} {rest : List Nat} {spans : List Span} {stop : Nat}
    (hs : s ≠ 0) (h : layoutSizes b reservedBytes (s :: rest) = .ok (spans, stop)) :
    ∃ spans', spans = ⟨reservedBytes, s⟩ :: spans' := by
  obtain ⟨offset, ho, h⟩ := bind_eq_ok.1 h
  obtain ⟨n, -, h⟩ := bind_eq_ok.1 h
  obtain ⟨⟨spans', stop'⟩, -, h⟩ := bind_eq_ok.1 h
  cases h
  have hres : reservedBytes = 256 := rfl
  have hcard : usizeCard = 2 ^ 64 := rfl
  rw [alignOffset_eq hs (by omega), place_reserved s hs] at ho
  cases ho
  exact ⟨spans', rfl⟩

/-- The first variable of a POU lies at the first address after the reserved bytes, and so does its
first nonempty one. -/
theorem Declares.first {b : Build} {unit : ProgramUnit} {tc' : TypeChecker} {spans : List Span}
    (h : Declares b unit tc' spans) (hs : ∀ s ∈ unit.sizes, s ≠ 0) :
    (unit.types ≠ [] → ∃ info ∈ tc'.symbols.infos, info.offset = reservedBytes) ∧
      ((∃ ty ∈ unit.types, ty.storage ≠ 0) →
        ∃ info ∈ tc'.symbols.infos, info.offset = reservedBytes ∧ info.size ≠ 0) := by
  have hmem : ∀ t ∈ unit.resultSpan ++ spans, ∃ info ∈ tc'.symbols.infos,
      info.offset = t.offset ∧ info.size = t.size := by
    intro t ht
    rw [← h.map_span] at ht
    obtain ⟨info, hi, rfl⟩ := List.mem_map.1 ht
    exact ⟨info, hi, rfl, rfl⟩
  -- without a nonempty result, the declared variables start at the reserved bytes
  have hdecl : unit.start = reservedBytes → unit.sizes ≠ [] →
      ∃ info ∈ tc'.symbols.infos, info.offset = reservedBytes ∧ info.size ≠ 0 := by
    intro hstart hne
    have hlayout := h.layout
    rw [hstart, Nat.mod_eq_of_lt (by decide)] at hlayout
    obtain ⟨s, rest, hsizes⟩ := List.exists_cons_of_ne_nil hne
    have hs0 : s ≠ 0 := hs s (by rw [hsizes]; exact List.mem_cons_self)
    rw [hsizes] at hlayout
    obtain ⟨spans', rfl⟩ := layoutSizes_head hs0 hlayout
    obtain ⟨info, hi, ho, hsz⟩ := hmem ⟨reservedBytes, s⟩
      (List.mem_append_right _ List.mem_cons_self)
    exact ⟨info, hi, ho, by rw [hsz]; exact hs0⟩
  have hsizes : unit.sizes = (unit.declarations.map fun d => d.decl.dataType).map
      DataType.storage := by
    rw [ProgramUnit.sizes, List.map_map]
    rfl
  cases hr : unit.result with
  | none =>
    have hstart : unit.start = reservedBytes := by rw [ProgramUnit.start, hr]
    have htypes : unit.types = unit.declarations.map fun d => d.decl.dataType := by
      rw [ProgramUnit.types, hr]
      rfl
    have hnonempty : unit.types ≠ [] → unit.sizes ≠ [] := by
      intro hne hnil
      apply hne
      rw [htypes]
      rw [hsizes] at hnil
      exact List.map_eq_nil_iff.1 hnil
    constructor
    · intro hne
      obtain ⟨info, hi, ho, -⟩ := hdecl hstart (hnonempty hne)
      exact ⟨info, hi, ho⟩
    · rintro ⟨ty, hty, -⟩
      exact hdecl hstart (hnonempty (List.ne_nil_of_mem hty))
  | some ret =>
    obtain ⟨info, hi, ho, hsz⟩ := hmem ⟨reservedBytes, ret.storage⟩ (by
      rw [ProgramUnit.resultSpan, hr]
      exact List.mem_cons_self)
    constructor
    · exact fun _ => ⟨info, hi, ho⟩
    · -- an empty result leaves its address to the first declared variable
      rintro ⟨ty, hty, hne⟩
      by_cases hret : ret.storage = 0
      · apply hdecl
        · rw [ProgramUnit.start, hr]
          show reservedBytes + ret.storage = _
          rw [hret]
          rfl
        · intro hnil
          rw [hsizes, List.map_eq_nil_iff] at hnil
          rw [ProgramUnit.types, hr, hnil] at hty
          rcases List.mem_singleton.1 hty with rfl
          exact hne hret
      · exact ⟨info, hi, ho, by rw [hsz]; exact hret⟩

/-- A debug build accepts no empty declared variable. -/
theorem debug_nonempty {unit : ProgramUnit} {tc' : TypeChecker} {spans : List Span}
    (h : Declares .debug unit tc' spans) : ∀ s ∈ unit.sizes, s ≠ 0 := by
  have hlt : unit.start % usizeCard < usizeCard := Nat.mod_lt _ (by decide)
  exact (layoutSizes_debug hlt h.layout).1

theorem storageSeparate_of_singleOwner {b : Build} {ast : CompilationUnit} {typed : TypedUnit}
    (h : check b ast = .ok typed) (hown : SingleOwner ast) : StorageSeparate typed := by
  have hchecks := check_ok h
  intro i j A B hi hj hne x hx y hy
  obtain ⟨U, hU, hcU⟩ := (forall₂_getElem? hchecks i).2 A hi
  obtain ⟨V, hV, hcV⟩ := (forall₂_getElem? hchecks j).2 B hj
  obtain ⟨tcU, spansU, hdU, hsU⟩ := checks_declares hcU
  obtain ⟨tcV, spansV, hdV, hsV⟩ := checks_declares hcV
  rw [hsU] at hx
  rw [hsV] at hy
  have hxty : x.dataType ∈ U.types := by
    rw [← hdU.map_dataType]
    exact List.mem_map.2 ⟨x, hx, rfl⟩
  have hyty : y.dataType ∈ V.types := by
    rw [← hdV.map_dataType]
    exact List.mem_map.2 ⟨y, hy, rfl⟩
  have hyzero : y.size = 0 := by
    by_contra hne'
    rw [hdV.size_eq hy] at hne'
    have hnil := hown j i V U hV hU hne.symm ⟨_, hyty, hne'⟩
    rw [hnil] at hxty
    cases hxty
  refine ⟨?_, assignmentKeeps_of_empty hyzero⟩
  intro a _ _ h3 h4
  have h3' : y.offset ≤ a := h3
  have h4' : a < y.offset + y.size := h4
  omega

theorem singleOwner_of_storageSeparate {b : Build} {ast : CompilationUnit} {typed : TypedUnit}
    (h : check b ast = .ok typed)
    (hb : b = .debug ∨ ∀ unit ∈ ast.units, ∀ s ∈ unit.sizes, s ≠ 0) (hsep : StorageSeparate typed) :
    SingleOwner ast := by
  have hchecks := check_ok h
  intro i j U V hU hV hne hown
  obtain ⟨A, hA, hcU⟩ := (forall₂_getElem? hchecks i).1 U hU
  obtain ⟨B, hB, hcV⟩ := (forall₂_getElem? hchecks j).1 V hV
  obtain ⟨tcU, spansU, hdU, hsU⟩ := checks_declares hcU
  obtain ⟨tcV, spansV, hdV, hsV⟩ := checks_declares hcV
  have hsizes : (∀ s ∈ U.sizes, s ≠ 0) ∧ ∀ s ∈ V.sizes, s ≠ 0 := by
    rcases hb with rfl | hb
    · exact ⟨debug_nonempty hdU, debug_nonempty hdV⟩
    · exact ⟨hb U (List.mem_of_getElem? hU), hb V (List.mem_of_getElem? hV)⟩
  by_contra hVne
  -- both POUs put a variable at the first address after the reserved bytes
  obtain ⟨y, hy, hyo, hys⟩ := (hdU.first hsizes.1).2 hown
  obtain ⟨x, hx, hxo⟩ := (hdV.first hsizes.2).1 hVne
  rw [← hsU] at hy
  rw [← hsV] at hx
  exact not_assignmentKeeps hxo hyo hys (hsep j i B A hB hA hne.symm x hx y hy).2

/-- In every build, a unit in which only one POU has variables keeps the storage of its POUs apart.
In a debug build, and in a release build without empty declared variables, no other unit does. -/
theorem storageSeparate_iff {b : Build} {ast : CompilationUnit} {typed : TypedUnit}
    (h : check b ast = .ok typed) :
    (SingleOwner ast → StorageSeparate typed) ∧
      ((b = .debug ∨ ∀ unit ∈ ast.units, ∀ s ∈ unit.sizes, s ≠ 0) →
        StorageSeparate typed → SingleOwner ast) :=
  ⟨storageSeparate_of_singleOwner h, singleOwner_of_storageSeparate h⟩

theorem check_exists (b : Build) (ast : CompilationUnit) (h : (check b ast).toBool = true) :
    ∃ typed, check b ast = .ok typed := by
  cases hc : check b ast with
  | error err =>
    rw [hc] at h
    cases h
  | ok typed => exact ⟨typed, rfl⟩

/-- A program with the variable `x` and a program without variables. -/
def ownedUnit : CompilationUnit :=
  ⟨[.program ⟨"Main", [⟨.var, false, [⟨"x", .int, none⟩]⟩], []⟩, .program ⟨"Idle", [], []⟩]⟩

theorem storageSeparate_single : ∃ typed,
    check .debug ownedUnit = .ok typed ∧ StorageSeparate typed := by
  obtain ⟨typed, ht⟩ := check_exists .debug ownedUnit (by decide)
  refine ⟨typed, ht, (storageSeparate_iff ht).1 ?_⟩
  rintro i j U V hU hV hne ⟨ty, hty, -⟩
  have hi := (List.getElem?_eq_some_iff.1 hU).1
  have hj := (List.getElem?_eq_some_iff.1 hV).1
  have hlen : ownedUnit.units.length = 2 := rfl
  obtain rfl | rfl : i = 0 ∨ i = 1 := by omega
  · -- the other POU declares nothing
    obtain rfl : j = 1 := by omega
    cases hV
    rfl
  · cases hU
    cases hty

/-- A program with the variable `x` and a function whose result shares the bytes of `x`. -/
def sharedUnit : CompilationUnit :=
  ⟨[.program ⟨"Main", [⟨.var, false, [⟨"x", .int, none⟩]⟩], []⟩, .function ⟨"f", .int, [], []⟩]⟩

theorem storageSeparate_fails : ¬ ∀ (b : Build) (ast : CompilationUnit) (typed : TypedUnit),
    check b ast = .ok typed → StorageSeparate typed := by
  intro h
  obtain ⟨typed, ht⟩ := check_exists .debug sharedUnit (by decide)
  have hown := singleOwner_of_storageSeparate ht (.inl rfl) (h _ _ _ ht)
  have hnil := hown 0 1 _ _ rfl rfl (by decide) ⟨.int, List.mem_cons_self, by decide⟩
  cases hnil

end VirtualPlc.Compiler
