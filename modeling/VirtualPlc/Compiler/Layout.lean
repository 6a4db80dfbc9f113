import VirtualPlc.Compiler.TypeChecker
import VirtualPlc.Word.Packing

/-!
# Layout of the variables of a POU

The type checker's sizes are the mathematical sizes modulo `2 ^ 64` (`sizeBytes_ok`), and its
offsets those of `pack` as long as nothing overflows (`layoutSizes_eq`), which a debug build makes
sure of (`layoutSizes_debug`), or as long as everything stays within a bound (`layoutSizes_within`).
`declare_ok` reduces the registration of a POU's variables to these two computations.
-/

set_option autoImplicit false

namespace VirtualPlc.Compiler

open VirtualPlc.Word

/-! ## Sizes -/

/-- Number of elements of an index range; negative when the bounds are reversed. -/
def elementCount (lower upper : Int) : Int := upper - lower + 1

/-- Size in bytes modulo `2 ^ 64`, if known at compile time. -/
def DataType.bytes : DataType → Option Nat
  | .bool => some 1
  | .sint | .usint | .byte => some 1
  | .int | .uint | .word => some 2
  | .dint | .udint | .dword | .real => some 4
  | .lint | .ulint | .lword | .lreal => some 8
  | .time => some 8
  | .date | .timeOfDay | .dateTime => some 8
  | .string (some len) => some ((len + 1) % usizeCard)
  | .wString (some len) => some ((len + 1) * 2 % usizeCard)
  | .array lower upper elementType =>
    elementType.bytes.map fun s => s * asUsize (elementCount lower upper) % usizeCard
  | .string none | .wString none | .named _ => none

/-- Bytes reserved for a variable of the type; a type of unknown size takes 4. -/
def DataType.storage (ty : DataType) : Nat := ty.bytes.getD 4

/-- Every array dimension has a nonnegative element count. -/
def DataType.Forward : DataType → Prop
  | .array lower upper elementType => 0 ≤ elementCount lower upper ∧ elementType.Forward
  | _ => True

/-- No step of the size computation leaves its machine type: counts are nonnegative and fit `i64`,
sizes fit `usize`. -/
def DataType.Exact : DataType → Prop
  | .string (some len) => len + 1 < usizeCard
  | .wString (some len) => (len + 1) * 2 < usizeCard
  | .array lower upper elementType =>
    elementType.Exact ∧ 0 ≤ elementCount lower upper ∧ elementCount lower upper ≤ i64Max ∧
      ∀ s, elementType.bytes = some s → s * (elementCount lower upper).toNat < usizeCard
  | _ => True

/-- A size that the checker computes is the mathematical one modulo `2 ^ 64`. -/
theorem sizeBytes_ok {b : Build} : ∀ {ty : DataType} {r : Option Nat},
    ty.sizeBytes b = .ok r → r = ty.bytes := by
  intro ty
  induction ty with
  | array lower upper e ih =>
    intro r h
    rw [DataType.sizeBytes] at h
    obtain ⟨span, hspan, h⟩ := bind_eq_ok.1 h
    obtain ⟨count, hcount, h⟩ := bind_eq_ok.1 h
    obtain ⟨re, hre, h⟩ := bind_eq_ok.1 h
    -- the count may wrap at either step, which the conversion to `usize` does not see
    have hc : asUsize count = asUsize (elementCount lower upper) := by
      rw [i64Add_ok hcount, i64Sub_ok hspan, elementCount]
    have he := ih hre
    subst he
    rw [DataType.bytes]
    cases hb : e.bytes with
    | none =>
      rw [hb] at h
      cases h
      rfl
    | some s =>
      rw [hb] at h
      obtain ⟨size, hsize, h⟩ := bind_eq_ok.1 h
      cases h
      rw [usizeMul_ok hsize, hc]
      rfl
  | string len =>
    intro r h
    cases len with
    | none =>
      cases h
      rfl
    | some n =>
      obtain ⟨size, hsize, h⟩ := bind_eq_ok.1 h
      cases h
      rw [usizeAdd_ok hsize]
      rfl
  | wString len =>
    intro r h
    cases len with
    | none =>
      cases h
      rfl
    | some n =>
      obtain ⟨chars, hchars, h⟩ := bind_eq_ok.1 h
      obtain ⟨size, hsize, h⟩ := bind_eq_ok.1 h
      cases h
      rw [usizeMul_ok hsize, usizeAdd_ok hchars, Nat.mod_mul_mod, DataType.bytes]
  | _ =>
    intro r h
    cases h
    rfl

/-- An exact size is computed in every build. -/
theorem sizeBytes_exact {b : Build} :
    ∀ {ty : DataType}, ty.Exact → ty.sizeBytes b = .ok ty.bytes := by
  intro ty
  induction ty with
  | array lower upper e ih =>
    rintro ⟨he, hlow, hhigh, hfit⟩
    unfold elementCount at hlow hhigh
    have hmax : i64Max = 2 ^ 63 - 1 := rfl
    have hmin : i64Min = -2 ^ 63 := rfl
    have hsub : i64Sub b upper lower = .ok (upper - lower) := i64Sub_eq (by omega)
    -- nothing wraps on the way to an exact size
    have hadd : i64Add b (upper - lower) 1 = .ok (upper - lower + 1) := i64Add_eq (by omega)
    have hcount : asUsize (elementCount lower upper) = (elementCount lower upper).toNat :=
      asUsize_eq hlow hhigh
    rw [DataType.sizeBytes, hsub, DataType.bytes]
    show (i64Add b (upper - lower) 1 >>= _) = _
    rw [hadd]
    show (DataType.sizeBytes b e >>= _) = _
    rw [ih he]
    cases hb : e.bytes with
    | none => rfl
    | some s =>
      have hs := hfit s hb
      show (usizeMul b s (asUsize (elementCount lower upper)) >>= _) =
        Except.ok (some (s * asUsize (elementCount lower upper) % usizeCard))
      rw [hcount, usizeMul_eq hs, Nat.mod_eq_of_lt hs]
      rfl
  | string len =>
    cases len with
    | none => exact fun _ => rfl
    | some n =>
      intro h
      show (usizeAdd b n 1 >>= _) = _
      rw [usizeAdd_eq h, DataType.bytes, Nat.mod_eq_of_lt h]
      rfl
  | wString len =>
    cases len with
    | none => exact fun _ => rfl
    | some n =>
      intro h
      have h' : (n + 1) * 2 < usizeCard := h
      show (usizeAdd b n 1 >>= _) = _
      rw [usizeAdd_eq (by omega)]
      show (usizeMul b (n + 1) 2 >>= _) = _
      rw [usizeMul_eq h', DataType.bytes, Nat.mod_eq_of_lt h']
      rfl
  | _ => exact fun _ => rfl

/-- A debug build computes the size of a type without reversed bounds only if it is exact. -/
theorem exact_of_debug : ∀ {ty : DataType} {r : Option Nat},
    ty.sizeBytes .debug = .ok r → ty.Forward → ty.Exact := by
  intro ty
  induction ty with
  | array lower upper e ih =>
    rintro r h ⟨hlow, hf⟩
    rw [DataType.sizeBytes] at h
    obtain ⟨span, hspan, h⟩ := bind_eq_ok.1 h
    obtain ⟨count, hcount, h⟩ := bind_eq_ok.1 h
    obtain ⟨re, hre, h⟩ := bind_eq_ok.1 h
    obtain ⟨-, rfl⟩ := i64Sub_debug.1 hspan
    obtain ⟨⟨-, hhigh⟩, rfl⟩ := i64Add_debug.1 hcount
    refine ⟨ih hre hf, hlow, hhigh, ?_⟩
    intro s hs
    have he := sizeBytes_ok hre
    rw [hs] at he
    subst he
    obtain ⟨size, hsize, -⟩ := bind_eq_ok.1 h
    -- a forward range has a count that the cast to usize keeps
    have hc : asUsize (upper - lower + 1) = (elementCount lower upper).toNat :=
      asUsize_eq hlow hhigh
    rw [hc] at hsize
    exact (usizeMul_debug.1 hsize).1
  | string len =>
    cases len with
    | none => exact fun _ _ => trivial
    | some n =>
      intro r h _
      obtain ⟨size, hsize, -⟩ := bind_eq_ok.1 h
      exact (usizeAdd_debug.1 hsize).1
  | wString len =>
    cases len with
    | none => exact fun _ _ => trivial
    | some n =>
      intro r h _
      obtain ⟨chars, hchars, h⟩ := bind_eq_ok.1 h
      obtain ⟨size, hsize, -⟩ := bind_eq_ok.1 h
      obtain ⟨-, rfl⟩ := usizeAdd_debug.1 hchars
      exact (usizeMul_debug.1 hsize).1
  | _ => exact fun _ _ => trivial

theorem DataType.Exact.forward : ∀ {ty : DataType}, ty.Exact → ty.Forward := by
  intro ty
  induction ty with
  | array lower upper e ih =>
    rintro ⟨he, hlow, -, -⟩
    exact ⟨hlow, ih he⟩
  | _ => exact fun _ => trivial

theorem DataType.bytes_lt : ∀ {ty : DataType} {s : Nat}, ty.bytes = some s → s < usizeCard := by
  intro ty s h
  have hcard : 0 < usizeCard := by decide
  cases ty with
  | array lower upper e =>
    rw [DataType.bytes, Option.map_eq_some_iff] at h
    obtain ⟨_, -, rfl⟩ := h
    exact Nat.mod_lt _ hcard
  | string len =>
    cases len with
    | none => cases h
    | some n =>
      cases h
      exact Nat.mod_lt _ hcard
  | wString len =>
    cases len with
    | none => cases h
    | some n =>
      cases h
      exact Nat.mod_lt _ hcard
  | _ => cases h <;> decide

theorem DataType.storage_lt (ty : DataType) : ty.storage < usizeCard := by
  rw [DataType.storage]
  cases h : ty.bytes with
  | none =>
    show 4 < usizeCard
    decide
  | some s => exact DataType.bytes_lt h

/-! ## Offsets -/

/-- The offsets that the checker assigns to variables of the given sizes, and the next offset. -/
def layoutSizes (b : Build) (nextOffset : Nat) : List Nat → Except Failure (List Span × Nat)
  | [] => .ok ([], nextOffset)
  | size :: rest => do
    let offset ← alignOffset b nextOffset size
    let next ← usizeAdd b offset size
    let (spans, stop) ← layoutSizes b next rest
    return (⟨offset, size⟩ :: spans, stop)

theorem alignOffset_eq {b : Build} {next size : Nat} (hs : size ≠ 0)
    (hfit : next + min size 8 < usizeCard) : alignOffset b next size = .ok (place next size) := by
  have hmin : 1 ≤ min size 8 := by omega
  have h1 : usizeAdd b next (min size 8) = .ok (next + min size 8) := usizeAdd_eq hfit
  have h2 : usizeSub b (next + min size 8) 1 = .ok (next + min size 8 - 1) := usizeSub_eq (by omega)
  have h3 : usizeSub b (min size 8) 1 = .ok (min size 8 - 1) := usizeSub_eq hmin
  rw [alignOffset]
  simp only [h1, h2, h3, bind, Except.bind]
  rw [and_usizeNot (by omega) (by omega), place, if_neg hs, roundUp,
    show next + min size 8 - 1 = next + (min size 8 - 1) by omega]
  rfl

/-- A debug build aligns exactly the nonempty variables whose alignment does not overflow. -/
theorem alignOffset_debug {next size offset : Nat} :
    alignOffset .debug next size = .ok offset ↔
      size ≠ 0 ∧ next + min size 8 < usizeCard ∧ offset = place next size := by
  constructor
  · intro h
    obtain ⟨sum, hsum, h'⟩ := bind_eq_ok.1 h
    obtain ⟨last, -, h'⟩ := bind_eq_ok.1 h'
    obtain ⟨mask, hmask, -⟩ := bind_eq_ok.1 h'
    have hfit := (usizeAdd_debug.1 hsum).1
    have hpos := (usizeSub_debug.1 hmask).1
    have hs : size ≠ 0 := by omega
    rw [alignOffset_eq hs hfit] at h
    cases h
    exact ⟨hs, hfit, rfl⟩
  · rintro ⟨hs, hfit, rfl⟩
    exact alignOffset_eq hs hfit

/-- A release build restarts at address 0 at an empty variable. -/
theorem alignOffset_release_zero (next : Nat) : alignOffset .release next 0 = .ok 0 := by
  have hmask : usizeSub .release 0 1 = .ok (usizeCard - 1) := by decide
  have hnot : usizeNot (usizeCard - 1) = 0 := by decide
  have hadd : ∃ sum, usizeAdd .release next 0 = .ok sum := by
    rw [usizeAdd, Build.result]
    split
    · exact ⟨_, rfl⟩
    · exact ⟨_, rfl⟩
  obtain ⟨sum, hsum⟩ := hadd
  have hsub : ∃ last, usizeSub .release sum 1 = .ok last := by
    rw [usizeSub, Build.result]
    split
    · exact ⟨_, rfl⟩
    · exact ⟨_, rfl⟩
  obtain ⟨last, hlast⟩ := hsub
  rw [alignOffset, Nat.zero_min]
  simp only [hsum, hlast, hmask, hnot, bind, Except.bind, Nat.and_zero]
  rfl

/-- Nonempty sizes whose packing ends below `2 ^ 64` are placed by `pack`, in every build. -/
theorem layoutSizes_eq {b : Build} : ∀ {sizes : List Nat} {next : Nat}, (∀ s ∈ sizes, s ≠ 0) →
    packEnd next sizes < usizeCard →
    layoutSizes b next sizes = .ok (pack next sizes, packEnd next sizes)
  | [], _, _, _ => rfl
  | s :: rest, next, hs, hend => by
    have hs0 := hs s List.mem_cons_self
    have hrest : ∀ t ∈ rest, t ≠ 0 := fun t ht => hs t (List.mem_cons_of_mem _ ht)
    have hle := packEnd_ge rest (place next s + s) hrest
    have hplace := le_place next hs0
    rw [packEnd] at hend
    rw [layoutSizes, alignOffset_eq hs0 (by omega)]
    show (usizeAdd b (place next s) s >>= _) = _
    rw [usizeAdd_eq (by omega)]
    show (layoutSizes b (place next s + s) rest >>= _) = _
    rw [layoutSizes_eq hrest hend]
    rfl

/-- A debug build lays out exactly the nonempty sizes whose packing ends below `2 ^ 64`. -/
theorem layoutSizes_debug : ∀ {sizes : List Nat} {next : Nat} {r : List Span × Nat},
    next < usizeCard → layoutSizes .debug next sizes = .ok r →
    (∀ s ∈ sizes, s ≠ 0) ∧ packEnd next sizes < usizeCard
  | [], _, _, hn, _ => ⟨by simp, hn⟩
  | s :: rest, next, r, _, h => by
    obtain ⟨offset, ho, h⟩ := bind_eq_ok.1 h
    obtain ⟨hs, -, rfl⟩ := alignOffset_debug.1 ho
    obtain ⟨n, hn, h⟩ := bind_eq_ok.1 h
    obtain ⟨hlt, rfl⟩ := usizeAdd_debug.1 hn
    obtain ⟨r', hr', -⟩ := bind_eq_ok.1 h
    obtain ⟨hrest, hend⟩ := layoutSizes_debug hlt hr'
    refine ⟨?_, hend⟩
    intro t ht
    rcases List.mem_cons.1 ht with rfl | ht
    · exact hs
    · exact hrest t ht

/-- While the intervals stay within a bound well below `2 ^ 64`, the offsets are those of `pack`;
and the offsets stay within the bound exactly when `pack` does. -/
theorem layoutSizes_within {b : Build} {bound : Nat} (hb : bound + 16 < usizeCard) :
    ∀ {sizes : List Nat} {next : Nat} {spans : List Span} {stop : Nat}, next ≤ bound →
      layoutSizes b next sizes = .ok (spans, stop) →
      ((∀ t ∈ spans, t.stop ≤ bound) ∨ (∀ t ∈ pack next sizes, t.stop ≤ bound)) →
      spans = pack next sizes
  | [], _, _, _, _, h, _ => by
    cases h
    rfl
  | s :: rest, next, spans, stop, hn, h, hin => by
    obtain ⟨offset, ho, h⟩ := bind_eq_ok.1 h
    obtain ⟨n, hadd, h⟩ := bind_eq_ok.1 h
    obtain ⟨⟨spans', stop'⟩, hr, h⟩ := bind_eq_ok.1 h
    cases h
    have hplace : offset = place next s := by
      by_cases hs : s = 0
      · subst hs
        cases b with
        | debug => exact absurd rfl (alignOffset_debug.1 ho).1
        | release =>
          rw [alignOffset_release_zero] at ho
          cases ho
          rfl
      · rw [alignOffset_eq hs (by omega)] at ho
        cases ho
        rfl
    subst hplace
    have hstop : place next s + s ≤ bound := by
      rcases hin with hin | hin
      · exact hin ⟨place next s, s⟩ List.mem_cons_self
      · exact hin ⟨place next s, s⟩ List.mem_cons_self
    rw [usizeAdd_eq (by omega)] at hadd
    cases hadd
    rw [pack, layoutSizes_within hb hstop hr]
    rcases hin with hin | hin
    · exact .inl fun t ht => hin t (List.mem_cons_of_mem _ ht)
    · exact .inr fun t ht => hin t (List.mem_cons_of_mem _ ht)

/-! ## Registration -/

/-- A declaration with what its block says about it. -/
structure Declaration where
  decl : VarDecl
  kind : VarBlockKind
  constant : Bool

/-- The declarations of a block. -/
def VarBlock.list (block : VarBlock) : List Declaration :=
  block.declarations.map fun decl => ⟨decl, block.kind, block.constant⟩

/-- The variable blocks of a POU. -/
def ProgramUnit.blocks : ProgramUnit → List VarBlock
  | .program p => p.vars
  | .functionBlock fb => fb.vars
  | .function f => f.vars

/-- The declarations of a POU in order. -/
def ProgramUnit.declarations (unit : ProgramUnit) : List Declaration :=
  unit.blocks.flatMap VarBlock.list

/-- The result variable of a FUNCTION. -/
def ProgramUnit.result : ProgramUnit → Option DataType
  | .program _ | .functionBlock _ => none
  | .function f => some f.returnType

/-- The fresh scope of a POU, with the result variable of a FUNCTION. -/
def TypeChecker.openScope (b : Build) (tc : TypeChecker) (unit : ProgramUnit) :
    Except Failure TypeChecker :=
  match unit with
  | .program _ | .functionBlock _ => .ok tc.enterPou
  | .function f => tc.enterPou.registerReturn b f

/-- Register the variables of a POU in a fresh scope. -/
def TypeChecker.declare (b : Build) (tc : TypeChecker) (unit : ProgramUnit) :
    Except Failure TypeChecker := do
  let tc ← tc.openScope b unit
  tc.registerVarBlocks b unit.blocks

/-- Register one declaration. -/
def TypeChecker.registerDeclaration (b : Build) (tc : TypeChecker) (d : Declaration) :
    Except Failure TypeChecker :=
  tc.registerVariable b d.decl d.kind d.constant

theorem registerVarBlocks_eq (b : Build) : ∀ (blocks : List VarBlock) (tc : TypeChecker),
    tc.registerVarBlocks b blocks =
      (blocks.flatMap VarBlock.list).foldlM (TypeChecker.registerDeclaration b) tc
  | [], _ => rfl
  | block :: rest, tc => by
    have hblock : tc.registerVarBlock b block =
        block.list.foldlM (TypeChecker.registerDeclaration b) tc := by
      rw [VarBlock.list, List.foldlM_map]
      rfl
    rw [List.flatMap_cons, List.foldlM_append, ← hblock]
    show (tc.registerVarBlock b block >>= fun tc => tc.registerVarBlocks b rest) = _
    cases tc.registerVarBlock b block with
    | error err => rfl
    | ok tc' => exact registerVarBlocks_eq b rest tc'

/-- The span of a symbol. -/
def SymbolInfo.span (info : SymbolInfo) : Span := ⟨info.offset, info.size⟩

/-- The symbol of a declaration at an offset. -/
def Declaration.symbol (d : Declaration) (span : Span) : SymbolInfo :=
  ⟨d.decl.name, d.decl.dataType, d.kind, span.offset, span.size, d.constant⟩

/-- Symbols by name, a later insertion nearer the front. -/
def symbolEntries (infos : List SymbolInfo) : List (String × SymbolInfo) :=
  (infos.map fun info => (info.name, info)).reverse

/-- What a successful registration of declarations does. -/
structure Registers (b : Build) (tc : TypeChecker) (ds : List Declaration) (tc' : TypeChecker)
    (spans : List Span) : Prop where
  sizes : ∀ d ∈ ds, d.decl.dataType.sizeBytes b = .ok d.decl.dataType.bytes
  layout : layoutSizes b tc.nextOffset (ds.map fun d => d.decl.dataType.storage) =
    .ok (spans, tc'.nextOffset)
  entries : tc'.symbols.vars =
    symbolEntries (List.zipWith Declaration.symbol ds spans) ++ tc.symbols.vars
  functions : tc'.functions = tc.functions

theorem registerDeclaration_ok {b : Build} {tc tc' : TypeChecker} {d : Declaration} :
    tc.registerDeclaration b d = .ok tc' ↔
      d.decl.dataType.sizeBytes b = .ok d.decl.dataType.bytes ∧
      ∃ offset next, alignOffset b tc.nextOffset d.decl.dataType.storage = .ok offset ∧
        usizeAdd b offset d.decl.dataType.storage = .ok next ∧
        tc' = { tc with
          symbols := ⟨(d.decl.name, d.symbol ⟨offset, d.decl.dataType.storage⟩) ::
            tc.symbols.vars,
            tc.symbols.layout ++ [⟨d.decl.name, offset, d.decl.dataType.storage⟩]⟩
          nextOffset := next } := by
  constructor
  · intro h
    obtain ⟨size, hsize, h⟩ := bind_eq_ok.1 h
    obtain rfl := sizeBytes_ok hsize
    obtain ⟨offset, ho, h⟩ := bind_eq_ok.1 h
    obtain ⟨next, hn, h⟩ := bind_eq_ok.1 h
    cases h
    exact ⟨hsize, offset, next, ho, hn, rfl⟩
  · rintro ⟨hsize, offset, next, ho, hn, rfl⟩
    rw [TypeChecker.registerDeclaration, TypeChecker.registerVariable, hsize]
    rw [DataType.storage] at ho hn
    simp only [bind, Except.bind, ho, hn]
    rfl

theorem registerAll_ok {b : Build} : ∀ {ds : List Declaration} {tc tc' : TypeChecker},
    ds.foldlM (TypeChecker.registerDeclaration b) tc = .ok tc' →
    ∃ spans, Registers b tc ds tc' spans
  | [], tc, tc', h => by
    cases h
    exact ⟨[], by simp, rfl, rfl, rfl⟩
  | d :: rest, tc, tc', h => by
    rw [List.foldlM_cons] at h
    obtain ⟨tc1, h1, h⟩ := bind_eq_ok.1 h
    obtain ⟨hsize, offset, next, ho, hn, rfl⟩ := registerDeclaration_ok.1 h1
    obtain ⟨spans, hsizes, hspans, hvars, hfuns⟩ := registerAll_ok h
    refine ⟨⟨offset, d.decl.dataType.storage⟩ :: spans, ?_, ?_, ?_, hfuns⟩
    · intro d' hd'
      rcases List.mem_cons.1 hd' with rfl | hd'
      · exact hsize
      · exact hsizes d' hd'
    · rw [List.map_cons, layoutSizes, ho]
      simp only [bind, Except.bind, hn, hspans]
      rfl
    · rw [hvars]
      simp [symbolEntries, Declaration.symbol]

theorem registerAll_of_layout {b : Build} : ∀ {ds : List Declaration} {tc : TypeChecker}
    {spans : List Span} {stop : Nat},
    (∀ d ∈ ds, d.decl.dataType.sizeBytes b = .ok d.decl.dataType.bytes) →
    layoutSizes b tc.nextOffset (ds.map fun d => d.decl.dataType.storage) = .ok (spans, stop) →
    ∃ tc', ds.foldlM (TypeChecker.registerDeclaration b) tc = .ok tc'
  | [], tc, _, _, _, _ => ⟨tc, rfl⟩
  | d :: rest, tc, spans, stop, hsizes, h => by
    rw [List.map_cons, layoutSizes] at h
    obtain ⟨offset, ho, h⟩ := bind_eq_ok.1 h
    obtain ⟨next, hn, h⟩ := bind_eq_ok.1 h
    obtain ⟨r, hr, -⟩ := bind_eq_ok.1 h
    have hd := registerDeclaration_ok.2 ⟨hsizes d List.mem_cons_self, offset, next, ho, hn, rfl⟩
    rw [List.foldlM_cons, hd]
    exact registerAll_of_layout (fun d' hd' => hsizes d' (List.mem_cons_of_mem _ hd')) hr

/-- First address after the result variable of a POU. -/
def ProgramUnit.start (unit : ProgramUnit) : Nat :=
  match unit.result with
  | none => reservedBytes
  | some ty => reservedBytes + ty.storage

/-- The span of the result variable. -/
def ProgramUnit.resultSpan (unit : ProgramUnit) : List Span :=
  match unit.result with
  | none => []
  | some ty => [⟨reservedBytes, ty.storage⟩]

/-- Sizes of the declared variables of a POU. -/
def ProgramUnit.sizes (unit : ProgramUnit) : List Nat :=
  unit.declarations.map fun d => d.decl.dataType.storage

/-- The types that a POU gives storage to: the result type and the declared types. -/
def ProgramUnit.types (unit : ProgramUnit) : List DataType :=
  unit.result.toList ++ unit.declarations.map fun d => d.decl.dataType

/-- Where `pack` puts the variables of a POU. -/
def ProgramUnit.spans (unit : ProgramUnit) : List Span :=
  unit.resultSpan ++ pack unit.start unit.sizes

/-- The symbols of a checked scope, in the order of their registration. -/
def SymbolTable.infos (symbols : SymbolTable) : List SymbolInfo :=
  symbols.vars.reverse.map (·.2)

/-- What a successful declaration of the variables of a POU does. -/
structure Declares (b : Build) (unit : ProgramUnit) (tc' : TypeChecker) (spans : List Span) :
    Prop where
  sizes : ∀ ty ∈ unit.types, ty.sizeBytes b = .ok ty.bytes
  start : ∀ ty, unit.result = some ty → usizeAdd b reservedBytes ty.storage =
    .ok ((reservedBytes + ty.storage) % usizeCard)
  layout : layoutSizes b (unit.start % usizeCard) unit.sizes = .ok (spans, tc'.nextOffset)
  infos : tc'.symbols.infos.map (fun info => (info.dataType, info.span)) =
    unit.types.zip (unit.resultSpan ++ spans)

theorem zipWith_symbol_infos : ∀ (ds : List Declaration) (spans : List Span),
    (List.zipWith Declaration.symbol ds spans).map (fun info => (info.dataType, info.span)) =
      (ds.map fun d => d.decl.dataType).zip spans
  | [], _ => rfl
  | _ :: _, [] => rfl
  | d :: ds, span :: spans => by
    rw [List.zipWith_cons_cons, List.map_cons, zipWith_symbol_infos ds spans]
    rfl

theorem infos_append (symbols : SymbolTable) (infos : List SymbolInfo)
    (h : symbols.vars = symbolEntries infos) : symbols.infos = infos := by
  rw [SymbolTable.infos, h, symbolEntries, List.reverse_reverse, List.map_map]
  exact List.map_id infos

theorem declare_eq (b : Build) (tc : TypeChecker) (unit : ProgramUnit) :
    tc.declare b unit = tc.openScope b unit >>= fun tc =>
      unit.declarations.foldlM (TypeChecker.registerDeclaration b) tc := by
  rw [TypeChecker.declare]
  exact congrArg _ (funext fun tc => registerVarBlocks_eq b unit.blocks tc)

/-- Registration computes the sizes of all types and lays the declarations out. -/
theorem declare_ok {b : Build} {tc tc' : TypeChecker} {unit : ProgramUnit}
    (h : tc.declare b unit = .ok tc') :
    (∃ spans, Declares b unit tc' spans) ∧ tc'.functions = tc.functions := by
  rw [declare_eq] at h
  obtain ⟨tc1, h1, h⟩ := bind_eq_ok.1 h
  obtain ⟨spans, hsizes, hlayout, hvars, hfuns⟩ := registerAll_ok h
  -- a program or a function block has no result in front of its variables
  have hplain : unit.result = none → tc1 = tc.enterPou →
      Declares b unit tc' spans ∧ tc'.functions = tc.functions := by
    intro hres htc
    subst htc
    refine ⟨⟨?_, ?_, ?_, ?_⟩, hfuns⟩
    · simpa [ProgramUnit.types, hres] using hsizes
    · simp [hres]
    · have hstart : unit.start % usizeCard = reservedBytes := by
        rw [ProgramUnit.start, hres]
        decide
      rw [hstart]
      exact hlayout
    · have hinfos :=
        infos_append tc'.symbols (List.zipWith Declaration.symbol unit.declarations spans)
        (by simpa [TypeChecker.enterPou, SymbolTable.default] using hvars)
      rw [hinfos, zipWith_symbol_infos]
      simp [ProgramUnit.types, ProgramUnit.resultSpan, hres]
  cases unit with
  | program p =>
    cases h1
    exact ⟨⟨spans, (hplain rfl rfl).1⟩, (hplain rfl rfl).2⟩
  | functionBlock fb =>
    cases h1
    exact ⟨⟨spans, (hplain rfl rfl).1⟩, (hplain rfl rfl).2⟩
  | function f =>
    obtain ⟨size, hsize, h1⟩ := bind_eq_ok.1 h1
    obtain rfl := sizeBytes_ok hsize
    obtain ⟨next, hnext, h1⟩ := bind_eq_ok.1 h1
    cases h1
    have hn := usizeAdd_ok hnext
    have hstart : (ProgramUnit.function f).start % usizeCard = next := by
      rw [hn]
      rfl
    refine ⟨⟨spans, ?_, ?_, ?_, ?_⟩, hfuns⟩
    · intro ty hty
      rcases List.mem_append.1 hty with hty | hty
      · have hret : ty = f.returnType := by simpa [ProgramUnit.result] using hty
        rw [hret]
        exact hsize
      · obtain ⟨d, hd, rfl⟩ := List.mem_map.1 hty
        exact hsizes d hd
    · intro ty hty
      cases hty
      rw [DataType.storage]
      rw [hn] at hnext
      exact hnext
    · rw [hstart]
      exact hlayout
    · let ret : SymbolInfo :=
        ⟨f.name, f.returnType, .var, reservedBytes, f.returnType.storage, false⟩
      have hinfos := infos_append tc'.symbols
        (ret :: List.zipWith Declaration.symbol (ProgramUnit.function f).declarations spans) (by
          rw [hvars]
          simp [symbolEntries, TypeChecker.enterPou, SymbolTable.default, ret, DataType.storage])
      rw [hinfos, List.map_cons, zipWith_symbol_infos]
      rfl

/-- A POU whose sizes are exact and whose variables pack below `2 ^ 64` is declared in every build.
-/
theorem declare_of_fits (b : Build) (tc : TypeChecker) {unit : ProgramUnit}
    (hexact : ∀ ty ∈ unit.types, ty.Exact) (hsizes : ∀ s ∈ unit.sizes, s ≠ 0)
    (hend : packEnd unit.start unit.sizes < usizeCard) :
    ∃ tc', tc.declare b unit = .ok tc' := by
  have hstart := packEnd_ge unit.sizes unit.start hsizes
  have hdecls : ∀ d ∈ unit.declarations,
      d.decl.dataType.sizeBytes b = .ok d.decl.dataType.bytes := by
    intro d hd
    apply sizeBytes_exact
    apply hexact
    exact List.mem_append_right _ (List.mem_map.2 ⟨d, hd, rfl⟩)
  have hopen : ∃ tc1, tc.openScope b unit = .ok tc1 ∧ tc1.nextOffset = unit.start := by
    cases unit with
    | program p => exact ⟨_, rfl, rfl⟩
    | functionBlock fb => exact ⟨_, rfl, rfl⟩
    | function f =>
      -- the result of a function is its first variable
      have hret : f.returnType.sizeBytes b = .ok f.returnType.bytes :=
        sizeBytes_exact (hexact _ (List.mem_append_left _ (by simp [ProgramUnit.result])))
      have hadd : usizeAdd b reservedBytes (f.returnType.bytes.getD 4) =
          .ok (reservedBytes + f.returnType.bytes.getD 4) :=
        usizeAdd_eq (Nat.lt_of_le_of_lt hstart hend)
      let info : SymbolInfo :=
        ⟨f.name, f.returnType, .var, reservedBytes, f.returnType.bytes.getD 4, false⟩
      let tc1 : TypeChecker := { tc.enterPou with
        symbols := { SymbolTable.default with vars := [(f.name, info)] }
        nextOffset := reservedBytes + f.returnType.bytes.getD 4 }
      refine ⟨tc1, ?_, rfl⟩
      rw [TypeChecker.openScope, TypeChecker.registerReturn, hret]
      show (usizeAdd b reservedBytes (f.returnType.bytes.getD 4) >>= _) = _
      rw [hadd]
      rfl
  obtain ⟨tc1, h1, hnext⟩ := hopen
  rw [declare_eq, h1]
  apply registerAll_of_layout hdecls
  rw [hnext]
  exact layoutSizes_eq hsizes hend

/-! ## Checked units -/

/-- The statements of a POU. -/
def ProgramUnit.body : ProgramUnit → List Statement
  | .program p => p.body
  | .functionBlock fb => fb.body
  | .function f => f.body

/-- Name of the function that a POU becomes. -/
def ProgramUnit.functionName : ProgramUnit → String
  | .program _ => "step"
  | .functionBlock fb => fb.name
  | .function f => f.name

/-- The typed POU is what the checker, knowing the given callables, makes of the POU. -/
def Checks (b : Build) (functions : List (String × FunctionSignature)) (unit : ProgramUnit)
    (pou : TypedPou) : Prop :=
  ∃ tc tc' : TypeChecker, tc.functions = functions ∧ tc.declare b unit = .ok tc' ∧
    pou.symbols = tc'.symbols ∧
    tc'.checkStatements b unit.body = .ok pou.body

theorem checkPou_ok {b : Build} {tc tc' : TypeChecker} {unit : ProgramUnit} {pou : TypedPou}
    (h : tc.checkPou b unit = .ok (pou, tc')) :
    Checks b tc.functions unit pou ∧ tc'.functions = tc.functions := by
  cases unit with
  | program p =>
    obtain ⟨⟨tp, tc1⟩, hp, h⟩ := bind_eq_ok.1 h
    cases h
    obtain ⟨tc2, h2, hp⟩ := bind_eq_ok.1 hp
    obtain ⟨body, hbody, hp⟩ := bind_eq_ok.1 hp
    cases hp
    have hd : tc.declare b (.program p) = .ok tc' := h2
    exact ⟨⟨tc, tc', rfl, hd, rfl, hbody⟩, (declare_ok hd).2⟩
  | functionBlock fb =>
    obtain ⟨⟨tp, tc1⟩, hp, h⟩ := bind_eq_ok.1 h
    cases h
    obtain ⟨tc2, h2, hp⟩ := bind_eq_ok.1 hp
    obtain ⟨body, hbody, hp⟩ := bind_eq_ok.1 hp
    cases hp
    have hd : tc.declare b (.functionBlock fb) = .ok tc' := h2
    exact ⟨⟨tc, tc', rfl, hd, rfl, hbody⟩, (declare_ok hd).2⟩
  | function f =>
    obtain ⟨⟨tp, tc1⟩, hp, h⟩ := bind_eq_ok.1 h
    cases h
    obtain ⟨tc2, h2, hp⟩ := bind_eq_ok.1 hp
    obtain ⟨tc3, h3, hp⟩ := bind_eq_ok.1 hp
    obtain ⟨body, hbody, hp⟩ := bind_eq_ok.1 hp
    cases hp
    have hd : tc.declare b (.function f) = .ok tc' := by
      rw [TypeChecker.declare, TypeChecker.openScope, h2]
      exact h3
    exact ⟨⟨tc, tc', rfl, hd, rfl, hbody⟩, (declare_ok hd).2⟩

theorem checkPous_ok {b : Build} : ∀ {units : List ProgramUnit} {tc tc' : TypeChecker}
    {pous : List TypedPou}, tc.checkPous b units = .ok (pous, tc') →
    List.Forall₂ (Checks b tc.functions) units pous ∧ tc'.functions = tc.functions
  | [], _, _, _, h => by
    cases h
    exact ⟨.nil, rfl⟩
  | unit :: rest, tc, tc', pous, h => by
    obtain ⟨⟨pou, tc1⟩, h1, h⟩ := bind_eq_ok.1 h
    obtain ⟨⟨pous', tc2⟩, h2, h⟩ := bind_eq_ok.1 h
    cases h
    obtain ⟨hpou, hfun⟩ := checkPou_ok h1
    obtain ⟨hrest, hfun'⟩ := checkPous_ok h2
    rw [hfun] at hrest hfun'
    exact ⟨.cons hpou hrest, hfun'⟩

/-- The callables that the first pass collects. -/
def CompilationUnit.callables (ast : CompilationUnit) : List (String × FunctionSignature) :=
  (ast.units.foldl TypeChecker.collectSignature TypeChecker.new).functions

/-- An accepted compilation unit is checked POU by POU. -/
theorem check_ok {b : Build} {ast : CompilationUnit} {typed : TypedUnit}
    (h : check b ast = .ok typed) :
    List.Forall₂ (Checks b ast.callables) ast.units typed.units := by
  obtain ⟨⟨pous, tc⟩, hp, h⟩ := bind_eq_ok.1 h
  cases h
  exact (checkPous_ok hp).1

end VirtualPlc.Compiler
