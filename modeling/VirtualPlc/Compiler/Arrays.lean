import VirtualPlc.Compiler.Access
import VirtualPlc.Compiler.Emission
import VirtualPlc.Compiler.Layout
import VirtualPlc.Word.Strides

/-!
# Elements of arrays

The code of an element access adds the scaled indices to the offset of the array, the path that
loads and the path that stores alike (`Evaluates.element`). The storage of the array holds the
elements from the lowest indices on, so the two agree when the scaled lower bounds add up to nothing
(`arrayAddressed_iff`).
-/

set_option autoImplicit false

namespace VirtualPlc.Compiler

open VirtualPlc.Word VirtualPlc.Wasm VirtualPlc.Control

/-! ## Array types -/

/-- The types that the grammar calls elementary. -/
def DataType.isElementary : DataType → Bool
  | .string _ | .wString _ | .named _ | .array .. => false
  | _ => true

/-- Arrays of arrays, down to elements of type `elem`. -/
def arrayOf (elem : DataType) : List Dimension → DataType
  | [] => elem
  | d :: ds => .array d.lower d.upper (arrayOf elem ds)

theorem bytes_elementary {elem : DataType} (h : elem.isElementary = true) :
    elem.bytes = some elem.storage := by
  cases elem <;> first | rfl | cases h

theorem exact_elementary {elem : DataType} (h : elem.isElementary = true) : elem.Exact := by
  cases elem <;> trivial

theorem storage_elementary_pos {elem : DataType} (h : elem.isElementary = true) :
    0 < elem.storage := by
  cases elem <;> first | decide | cases h

theorem accessWidth_le_storage {elem : DataType} (h : elem.isElementary = true) :
    elem.accessWidth ≤ elem.storage := by
  cases elem <;> first | decide | cases h

section Sizes

variable {elem : DataType} (helem : elem.isElementary = true)
include helem

/-- The checker's size of an array is its extent modulo `2 ^ 64`. -/
theorem bytes_arrayOf {ds : List Dimension} (hbounds : ∀ d ∈ ds, d.lower ≤ d.upper) :
    (arrayOf elem ds).bytes = some (extent elem.storage ds % usizeCard) := by
  induction ds with
  | nil =>
    have hlt : elem.storage < usizeCard := elem.storage_lt
    rw [arrayOf, bytes_elementary helem, extent, Nat.mod_eq_of_lt hlt]
  | cons d ds ih =>
    have hd := hbounds d List.mem_cons_self
    have hcount : asUsize (elementCount d.lower d.upper) = d.count % usizeCard := by
      show ((d.upper - d.lower + 1) % ((2 ^ 64 : Nat) : Int)).toNat =
        (d.upper - d.lower + 1).toNat % 2 ^ 64
      omega
    rw [arrayOf, DataType.bytes, ih fun d' hd' => hbounds d' (List.mem_cons_of_mem _ hd'), hcount,
      Option.map_some, extent, ← Nat.mul_mod]

/-- An array that ends well within 64 bits has an exact size. -/
theorem exact_arrayOf {ds : List Dimension} (hbounds : ∀ d ∈ ds, d.lower ≤ d.upper)
    (hfit : extent elem.storage ds < 2 ^ 63) : (arrayOf elem ds).Exact := by
  induction ds with
  | nil => exact exact_elementary helem
  | cons d ds ih =>
    have hd := hbounds d List.mem_cons_self
    have hrest : ∀ d' ∈ ds, d'.lower ≤ d'.upper := fun d' hd' =>
      hbounds d' (List.mem_cons_of_mem _ hd')
    have hpos := extent_pos elem.storage (storage_elementary_pos helem) hrest
    have hcount : (elementCount d.lower d.upper).toNat = d.count := rfl
    have hone : 1 ≤ d.count := by
      rw [Dimension.count]
      omega
    rw [extent] at hfit
    -- neither the inner array nor the number of its copies exceeds the whole
    have hinner : extent elem.storage ds ≤ extent elem.storage ds * d.count :=
      Nat.le_mul_of_pos_right _ hone
    have hcopies : d.count ≤ extent elem.storage ds * d.count := Nat.le_mul_of_pos_left _ hpos
    refine ⟨ih hrest (by omega), ?_, ?_, ?_⟩
    · rw [elementCount]
      omega
    · have hmax : i64Max = 2 ^ 63 - 1 := rfl
      omega
    · intro s hs
      have hcard : usizeCard = 2 ^ 64 := rfl
      rw [bytes_arrayOf helem hrest, Option.some.injEq] at hs
      rw [← hs, Nat.mod_eq_of_lt (by omega), hcount]
      omega

theorem storage_arrayOf {ds : List Dimension} (hbounds : ∀ d ∈ ds, d.lower ≤ d.upper)
    (hfit : extent elem.storage ds < usizeCard) :
    (arrayOf elem ds).storage = extent elem.storage ds := by
  rw [DataType.storage, bytes_arrayOf helem hbounds, Option.getD_some, Nat.mod_eq_of_lt hfit]

/-- Type and size that the checker gives an element. -/
theorem checkElement_arrayOf {b : Build} {d : Dimension} {ds : List Dimension} {ty : DataType}
    {size : Nat} (hbounds : ∀ d ∈ ds, d.lower ≤ d.upper)
    (h : checkElement b (arrayOf elem (d :: ds)) = .ok (ty, size)) :
    ty = arrayOf elem ds ∧ size = extent elem.storage ds % usizeCard := by
  obtain ⟨r, hr, h⟩ := bind_eq_ok.1 h
  obtain rfl := sizeBytes_ok hr
  rw [bytes_arrayOf helem hbounds] at h
  cases h
  exact ⟨rfl, rfl⟩

end Sizes

/-! ## Index expressions -/

/-- The index expressions are accepted, and their code, run in order, takes the memory from `m` to
`m'` and leaves the low 32 bits of `is`. -/
inductive Evaluates (b : Build) (tc : TypeChecker) (link : String → Bool → Nat) (env : Env Bounds)
    (n : Nat) (l : List Value) : List Expression → List Int → Memory → Memory → Prop
  | nil (m : Memory) : Evaluates b tc link env n l [] [] m m
  | cons {e : Expression} {t : TypedExpr} {es : List Expression} {i : Int} {is : List Int}
      {m m' m'' : Memory} (hcheck : tc.checkExpr b e = .ok t)
      (hrun : ∀ st, execSeq (machine env) n (strip (exprCode link t)) ⟨st, l, m⟩ =
        .normal ⟨.i32 (BitVec.ofInt 32 i) :: st, l, m'⟩)
      (hrest : Evaluates b tc link env n l es is m' m'') :
      Evaluates b tc link env n l (e :: es) (i :: is) m m''

/-- The element of a variable at the given indices. -/
def elementOf (name : String) (indices : List Expression) : Expression :=
  indices.foldl .arrayAccess (.variable name)

/-- Accepting an element accepts what is indexed. -/
theorem checkExpr_base {b : Build} {tc : TypeChecker} {indices : List Expression}
    {base : Expression} {r : TypedExpr}
    (h : tc.checkExpr b (indices.foldl .arrayAccess base) = .ok r) :
    ∃ t, tc.checkExpr b base = .ok t := by
  induction indices generalizing base with
  | nil => exact ⟨r, h⟩
  | cons e es ih =>
    obtain ⟨t, ht⟩ := ih h
    obtain ⟨arr, harr, -⟩ := bind_eq_ok.1 ht
    exact ⟨arr, harr⟩

/-- What is accepted for an element is an access. -/
theorem checkExpr_access {b : Build} {tc : TypeChecker} {indices : List Expression}
    {base index : Expression} {r : TypedExpr}
    (h : tc.checkExpr b (indices.foldl .arrayAccess (.arrayAccess base index)) = .ok r) :
    ∃ array idx size ty, r = .arrayAccess array idx size ty := by
  induction indices generalizing base index with
  | nil =>
    obtain ⟨arr, -, h⟩ := bind_eq_ok.1 h
    obtain ⟨idx, -, h⟩ := bind_eq_ok.1 h
    obtain ⟨⟨ty, size⟩, -, h⟩ := bind_eq_ok.1 h
    cases h
    exact ⟨arr, idx, size, ty, rfl⟩
  | cons e es ih => exact ih h

theorem exprCode_access (link : String → Bool → Nat) (array index : TypedExpr) (size : Nat)
    (ty : DataType) :
    exprCode link (.arrayAccess array index size ty) =
      addressCode link (.arrayAccess array index size ty) ++ ops [loadOp ty 0] := by
  simp [exprCode, addressCode, List.append_assoc]

theorem strip_indexProbe (ty : DataType) : strip (indexProbe ty) = [] := by
  cases ty <;> rfl

section Elements

variable {b : Build} {tc : TypeChecker} {link : String → Bool → Nat} {env : Env Bounds} {n : Nat}
  {l : List Value} {elem : DataType}

/-- Scaling by a size modulo `2 ^ 64` and adding it to an address. -/
theorem execSeq_scaleCode (a i : Int) (size : Nat) (st : List Value) (m : Memory) :
    execSeq (machine env) n (scaleCode (size % usizeCard))
        ⟨.i32 (BitVec.ofInt 32 i) :: .i32 (BitVec.ofInt 32 a) :: st, l, m⟩ =
      .normal ⟨.i32 (BitVec.ofInt 32 (a + i * size)) :: st, l, m⟩ := by
  have hsize : BitVec.ofNat 32 (size % usizeCard) = BitVec.ofInt 32 (size : Int) := by
    rw [BitVec.ofInt_natCast]
    apply BitVec.eq_of_toNat_eq
    rw [BitVec.toNat_ofNat, BitVec.toNat_ofNat, usizeCard]
    omega
  have hsum : BitVec.ofInt 32 a + BitVec.ofInt 32 i * BitVec.ofInt 32 (size : Int) =
      BitVec.ofInt 32 (a + i * size) := by
    rw [BitVec.ofInt_add, BitVec.ofInt_mul]
  rw [scaleCode, hsize, ← hsum]
  rfl

/-- The code of an element's address leaves the sum of the scaled indices and the address of what is
indexed. -/
theorem Evaluates.element (helem : elem.isElementary = true) {es : List Expression} {is : List Int}
    {m m' : Memory} (h : Evaluates b tc link env n l es is m m') {ds : List Dimension}
    (hbounds : ∀ d ∈ ds, d.lower ≤ d.upper) (hlength : is.length = ds.length) {base : Expression}
    {t r : TypedExpr} {a : Int} {m₀ : Memory} (hbase : tc.checkExpr b base = .ok t)
    (hty : t.ty = arrayOf elem ds)
    (haddress : ∀ st, execSeq (machine env) n (strip (addressCode link t)) ⟨st, l, m₀⟩ =
      .normal ⟨.i32 (BitVec.ofInt 32 a) :: st, l, m⟩)
    (hcheck : tc.checkExpr b (es.foldl .arrayAccess base) = .ok r) :
    r.ty = elem ∧ ∀ st, execSeq (machine env) n (strip (addressCode link r)) ⟨st, l, m₀⟩ =
      .normal ⟨.i32 (BitVec.ofInt 32 (a + scaled elem.storage ds is)) :: st, l, m'⟩ := by
  induction h generalizing ds base t a with
  | nil m =>
    obtain rfl := List.length_eq_zero_iff.mp hlength.symm
    cases hbase.symm.trans hcheck
    have hzero : a + scaled elem.storage [] [] = a := Int.add_zero a
    rw [hzero]
    exact ⟨hty, haddress⟩
  | @cons e idx es i is m m₁ m₂ hidx hrun hrest ih =>
    obtain ⟨d, ds, rfl⟩ := List.exists_cons_of_length_eq_add_one hlength.symm
    have hinner : ∀ d' ∈ ds, d'.lower ≤ d'.upper := fun d' hd' =>
      hbounds d' (List.mem_cons_of_mem _ hd')
    -- one more access, with the size that the checker gives it
    have hcheck' : tc.checkExpr b (es.foldl .arrayAccess (.arrayAccess base e)) = .ok r := hcheck
    obtain ⟨t', ht'⟩ := checkExpr_base hcheck'
    obtain ⟨arr, harr, hstep⟩ := bind_eq_ok.1 ht'
    obtain ⟨idx', hidx', hstep⟩ := bind_eq_ok.1 hstep
    obtain ⟨⟨ty, size⟩, hsize, hstep⟩ := bind_eq_ok.1 hstep
    cases hbase.symm.trans harr
    cases hidx.symm.trans hidx'
    rw [hty] at hsize
    obtain ⟨rfl, rfl⟩ := checkElement_arrayOf helem hinner hsize
    cases hstep
    have hstrip : strip (addressCode link (.arrayAccess t idx (extent elem.storage ds % usizeCard)
        (arrayOf elem ds))) = strip (addressCode link t) ++ (strip (exprCode link idx) ++
          scaleCode (extent elem.storage ds % usizeCard)) := by
      rw [addressCode, strip_append, strip_append, strip_append, strip_indexProbe, List.nil_append,
        scaleCode, strip_ops]
    have hnext := ih hinner (Nat.succ.inj hlength) ht' rfl (a := a + i * extent elem.storage ds)
      (fun st => by
        rw [hstrip, execSeq_append, haddress, Outcome.andThen_normal, execSeq_append, hrun,
          Outcome.andThen_normal, execSeq_scaleCode]) hcheck'
    rw [scaled, ← Int.add_assoc]
    exact hnext

/-- An element of an array of exact size is accepted. -/
theorem checkExpr_element {es : List Expression}
    (hes : ∀ e ∈ es, ∃ t, tc.checkExpr b e = .ok t) {ds : List Dimension}
    (hexact : (arrayOf elem ds).Exact) (hlength : es.length = ds.length) {base : Expression}
    {t : TypedExpr} (hbase : tc.checkExpr b base = .ok t) (hty : t.ty = arrayOf elem ds) :
    ∃ r, tc.checkExpr b (es.foldl .arrayAccess base) = .ok r ∧ r.ty = elem := by
  induction es generalizing ds base t with
  | nil =>
    obtain rfl := List.length_eq_zero_iff.mp hlength.symm
    exact ⟨t, hbase, hty⟩
  | cons e es ih =>
    obtain ⟨d, ds, rfl⟩ := List.exists_cons_of_length_eq_add_one hlength.symm
    obtain ⟨idx, hidx⟩ := hes e List.mem_cons_self
    have hsize : checkElement b t.ty =
        .ok (arrayOf elem ds, (arrayOf elem ds).bytes.getD 4) := by
      rw [hty, arrayOf, checkElement, sizeBytes_exact hexact.1]
      rfl
    have hstep : tc.checkExpr b (.arrayAccess base e) =
        .ok (.arrayAccess t idx ((arrayOf elem ds).bytes.getD 4) (arrayOf elem ds)) := by
      rw [TypeChecker.checkExpr, hbase]
      show (tc.checkExpr b e >>= _) = _
      rw [hidx]
      show (checkElement b t.ty >>= _) = _
      rw [hsize]
      rfl
    exact ih (fun e' he => hes e' (List.mem_cons_of_mem _ he)) hexact.1 (Nat.succ.inj hlength)
      hstep rfl

end Elements

/-! ## Reading and assigning elements -/

/-- Write the low bytes of a value at an address. -/
def storeAt (env : Env Bounds) (st l : List Value) (m : Memory) (address width bits : Nat) :
    Outcome Fault State :=
  match m.write address width bits with
  | none => .abort .trap
  | some mem => if env.guarded address width then .abort .guarded else .normal ⟨st, l, mem⟩

/-- The element of `name` at the indices `is`, of type `elem`, is accepted, read and assigned at
`address`, whatever the expressions of the indices and of the value. -/
structure AccessedAt (b : Build) (tc : TypeChecker) (name : String) (elem : DataType)
    (is : List Int) (address : Nat) : Prop where
  accepted : ∀ es : List Expression, es.length = is.length →
    (∀ e ∈ es, ∃ t, tc.checkExpr b e = .ok t) →
    ∃ r, tc.checkExpr b (elementOf name es) = .ok r ∧ r.ty = elem
  read : ∀ (emitter : WasmEmitter) (env : Env Bounds) (n : Nat) (l : List Value)
    (es : List Expression) (m m' : Memory) (r : TypedExpr) (lowerer : IrLowerer) (tree : PlcCode),
    Evaluates b tc emitter.link env n l es is m m' →
    tc.checkExpr b (elementOf name es) = .ok r →
    emitter.treeOf (lowerExpr r) lowerer = some tree →
    ∀ st, execSeq (machine env) n tree ⟨st, l, m⟩ =
      State.pushOrTrap ⟨st, l, m'⟩ ((m'.read address elem.accessWidth).map elem.decode)
  assign : ∀ (emitter : WasmEmitter) (env : Env Bounds) (n : Nat) (l : List Value)
    (es : List Expression) (m m' m'' : Memory) (value : Expression) (t : TypedExpr) (v : Value)
    (stmt : TypedStatement) (lowerer : IrLowerer) (tree : PlcCode),
    Evaluates b tc emitter.link env n l es is m m' →
    tc.checkExpr b value = .ok t →
    (∀ st, execSeq (machine env) n (strip (exprCode emitter.link t)) ⟨st, l, m'⟩ =
      .normal ⟨v :: st, l, m''⟩) →
    v.type = elem.valType →
    tc.checkStatement b (.assignment (elementOf name es) value) = .ok stmt →
    emitter.treeOf (lowerStatement stmt) lowerer = some tree →
    ∀ st, execSeq (machine env) n tree ⟨st, l, m⟩ =
      storeAt env st l m'' address elem.accessWidth v.bits

/-- The elements of the array `name`, which starts at `offset`, are read and assigned where its
storage holds them. -/
structure ArrayAddressed (b : Build) (tc : TypeChecker) (name : String) (offset : Nat)
    (elem : DataType) (ds : List Dimension) : Prop where
  element : ∀ is, InBounds ds is →
    AccessedAt b tc name elem is (offset + displacement elem.storage ds is)
  inside : ∀ is, InBounds ds is →
    offset + displacement elem.storage ds is + elem.storage ≤ offset + (arrayOf elem ds).storage
  width : elem.accessWidth ≤ elem.storage
  apart : ∀ is js, InBounds ds is → InBounds ds js → is ≠ js →
    Span.Disjoint ⟨offset + displacement elem.storage ds is, elem.storage⟩
      ⟨offset + displacement elem.storage ds js, elem.storage⟩

/-- The scaled lower bounds add up to a multiple of `2 ^ 32`, and the last element starts below
`2 ^ 32`. -/
def Based (offset size : Nat) (ds : List Dimension) : Prop :=
  (2 ^ 32 : Int) ∣ scaled size ds (ds.map Dimension.lower) ∧
    offset + displacement size ds (ds.map Dimension.upper) < 2 ^ 32

/-- The address that the code of an element computes. -/
def codeAddress (offset size : Nat) (ds : List Dimension) (is : List Int) : Nat :=
  (BitVec.ofInt 32 (offset + scaled size ds is)).toNat

section Variables

variable {b : Build} {tc : TypeChecker} {name : String} {info : SymbolInfo} {elem : DataType}
  {d : Dimension} {ds : List Dimension}

/-- The code of an element's address leaves `codeAddress`. -/
theorem Evaluates.codeAddress (hvar : tc.symbols.vars.lookup name = some info)
    (hty : info.dataType = arrayOf elem ds) (helem : elem.isElementary = true)
    (hbounds : ∀ d ∈ ds, d.lower ≤ d.upper) {link : String → Bool → Nat} {env : Env Bounds}
    {n : Nat} {l : List Value} {es : List Expression} {is : List Int} {m m' : Memory}
    (h : Evaluates b tc link env n l es is m m') (hlength : is.length = ds.length) {r : TypedExpr}
    (hcheck : tc.checkExpr b (elementOf name es) = .ok r) :
    r.ty = elem ∧ ∃ a : BitVec 32, a.toNat = codeAddress info.offset elem.storage ds is ∧
      ∀ st, execSeq (machine env) n (strip (addressCode link r)) ⟨st, l, m⟩ =
        .normal ⟨.i32 a :: st, l, m'⟩ := by
  have hbase : ∀ st, execSeq (machine env) n
      (strip (addressCode link (.variable name info.offset info.dataType))) ⟨st, l, m⟩ =
        .normal ⟨.i32 (BitVec.ofInt 32 (info.offset : Int)) :: st, l, m⟩ := by
    intro st
    rw [addressCode, strip_ops, BitVec.ofInt_natCast]
    rfl
  obtain ⟨hr, hrun⟩ := h.element helem hbounds hlength (checkExpr_variable hvar) hty hbase hcheck
  exact ⟨hr, _, rfl, hrun⟩

/-- An element is read and assigned at `codeAddress`. -/
theorem accessedAt_code (hvar : tc.symbols.vars.lookup name = some info)
    (hty : info.dataType = arrayOf elem (d :: ds)) (helem : elem.isElementary = true)
    (hbounds : ∀ d' ∈ d :: ds, d'.lower ≤ d'.upper) {is : List Int}
    (hlength : is.length = (d :: ds).length)
    (haccepted : ∀ es : List Expression, es.length = is.length →
      (∀ e ∈ es, ∃ t, tc.checkExpr b e = .ok t) →
      ∃ r, tc.checkExpr b (elementOf name es) = .ok r ∧ r.ty = elem) :
    AccessedAt b tc name elem is (codeAddress info.offset elem.storage (d :: ds) is) := by
  refine ⟨haccepted, ?_, ?_⟩
  · intro emitter env n l es m m' r lowerer tree h hcheck htree st
    obtain ⟨-, rfl⟩ := ((lowerExpr_emits emitter r).treeOf_iff lowerer tree).mp htree
    -- the address is left on the stack, and the load takes it from there
    obtain ⟨hr, a, ha, hrun⟩ := h.codeAddress hvar hty helem hbounds hlength hcheck
    obtain ⟨e, es, rfl⟩ : ∃ e es', es = e :: es' := by
      cases h with
      | nil => cases hlength
      | cons => exact ⟨_, _, rfl⟩
    obtain ⟨array, idx, size, ty, rfl⟩ := checkExpr_access hcheck
    obtain rfl : ty = elem := hr
    rw [exprCode_access, strip_append, execSeq_append, hrun, Outcome.andThen_normal, strip_ops,
      execSeq_ops_cons, machine_step, stepOp_loadOp, Nat.add_zero, ha]
    cases m'.read (codeAddress info.offset ty.storage (d :: ds) is) ty.accessWidth <;> rfl
  · intro emitter env n l es m m' m'' value t v stmt lowerer tree h hvalue hpush htype hstmt
      htree st
    obtain ⟨-, rfl⟩ := ((lowerStatement_emits stmt).treeOf_iff lowerer tree).mp htree
    obtain ⟨r, hcheck, hstmt⟩ := bind_eq_ok.1 hstmt
    obtain ⟨t', ht', hstmt⟩ := bind_eq_ok.1 hstmt
    obtain ⟨-, -, hstmt⟩ := bind_eq_ok.1 hstmt
    cases hstmt
    cases hvalue.symm.trans ht'
    obtain ⟨hr, a, ha, hrun⟩ := h.codeAddress hvar hty helem hbounds hlength hcheck
    -- the value is checked against the type of the store before its address is taken
    have hstore : stepOp env (storeOp r.ty) ⟨v :: .i32 a :: st, l, m''⟩ =
        storeAt env st l m'' (codeAddress info.offset elem.storage (d :: ds) is) elem.accessWidth
          v.bits := by
      rw [stepOp_storeOp, hr, State.storeWith, State.pop_cons, State.popI32_cons, if_pos htype,
        Nat.add_zero, ha]
      cases hwrite : m''.write (codeAddress info.offset elem.storage (d :: ds) is) elem.accessWidth
          v.bits with
      | none => simp only [storeAt, hwrite]
      | some mem => simp only [storeAt, hwrite]
    rw [stmtCode, strip_append, execSeq_append, hrun, Outcome.andThen_normal, strip_append,
      execSeq_append, hpush, Outcome.andThen_normal, strip_ops, execSeq_ops_cons, machine_step,
      hstore, storeAt]
    cases m''.write _ elem.accessWidth v.bits with
    | none => rfl
    | some mem =>
      dsimp only
      cases env.guarded _ elem.accessWidth <;> rfl

theorem emod_toNat (x : Int) : ((BitVec.ofInt 32 x).toNat : Int) = x % 2 ^ 32 := by
  rw [BitVec.toNat_ofInt]
  exact Int.toNat_of_nonneg (Int.emod_nonneg x (by decide))

/-- Where the array is based, the code's addresses are those of the storage. -/
theorem Based.codeAddress_eq {offset size : Nat} (h : Based offset size ds) {is : List Int}
    (hi : InBounds ds is) (hbounds : ∀ d ∈ ds, d.lower ≤ d.upper) :
    codeAddress offset size ds is = offset + displacement size ds is := by
  obtain ⟨⟨k, hk⟩, hlast⟩ := h
  have hdisp := displacement_eq size hi
  have hle := displacement_add_le size hi
  have hupper := displacement_upper size hbounds
  have hmod := emod_toNat (offset + scaled size ds is)
  rw [codeAddress]
  omega

theorem Based.extent_lt {offset : Nat} (helem : elem.isElementary = true)
    (h : Based offset elem.storage ds) (hbounds : ∀ d ∈ ds, d.lower ≤ d.upper) :
    extent elem.storage ds < 2 ^ 63 := by
  have hsmall : elem.storage ≤ 8 := by
    cases elem <;> first | decide | cases helem
  have hupper := displacement_upper elem.storage hbounds
  have hlast := h.2
  omega

/-- A based array is addressed where its storage holds its elements. -/
theorem Based.addressed (hvar : tc.symbols.vars.lookup name = some info)
    (hty : info.dataType = arrayOf elem (d :: ds)) (helem : elem.isElementary = true)
    (hbounds : ∀ d' ∈ d :: ds, d'.lower ≤ d'.upper) (h : Based info.offset elem.storage (d :: ds)) :
    ArrayAddressed b tc name info.offset elem (d :: ds) := by
  have hextent := h.extent_lt helem hbounds
  have hcard : usizeCard = 2 ^ 64 := rfl
  have hexact := exact_arrayOf helem hbounds hextent
  refine ⟨?_, ?_, accessWidth_le_storage helem,
    fun is js => disjoint_of_ne elem.storage info.offset⟩
  · intro is hi
    rw [← h.codeAddress_eq hi hbounds]
    apply accessedAt_code hvar hty helem hbounds hi.length_eq
    intro es hlength hes
    exact checkExpr_element hes hexact (hlength.trans hi.length_eq) (checkExpr_variable hvar) hty
  · intro is hi
    rw [storage_arrayOf helem hbounds (by omega)]
    have hle := displacement_add_le elem.storage hi
    omega

/-- A literal whose code pushes the low 32 bits of an index. -/
def indexLiteral (i : Int) : Expression := .literal (.integer (BitVec.ofInt 32 i).toInt)

theorem checkExpr_indexLiteral (b : Build) (tc : TypeChecker) (i : Int) :
    ∃ t, tc.checkExpr b (indexLiteral i) = .ok t ∧
      ∀ (link : String → Bool → Nat) (env : Env Bounds) (n : Nat) (l st : List Value) (m : Memory),
        execSeq (machine env) n (strip (exprCode link t)) ⟨st, l, m⟩ =
          .normal ⟨.i32 (BitVec.ofInt 32 i) :: st, l, m⟩ := by
  refine ⟨_, rfl, ?_⟩
  intro link env n l st m
  have hrange := (BitVec.ofInt 32 i).isLt
  have hbits : literalBits (BitVec.ofInt 32 i).toInt ≤ 32 := by
    have hlow := BitVec.le_toInt (BitVec.ofInt 32 i)
    have hhigh := BitVec.toInt_lt (x := BitVec.ofInt 32 i)
    rw [literalBits]
    split
    · decide
    · split
      · decide
      · rw [if_pos (by omega)]
  have hvalue : literalValue (.integer (BitVec.ofInt 32 i).toInt
      (literalBits (BitVec.ofInt 32 i).toInt)) = .i32 (BitVec.ofInt 32 i) := by
    rw [literalValue, if_pos hbits, BitVec.ofInt_toInt]
  rw [exprCode, hvalue]
  rfl

theorem evaluates_indexLiterals (b : Build) (tc : TypeChecker) (link : String → Bool → Nat)
    (env : Env Bounds) (n : Nat) (l : List Value) (m : Memory) (is : List Int) :
    Evaluates b tc link env n l (is.map indexLiteral) is m m := by
  induction is with
  | nil => exact .nil m
  | cons i is ih =>
    obtain ⟨t, ht, hrun⟩ := checkExpr_indexLiteral b tc i
    exact .cons ht (fun st => hrun link env n l st m) ih

theorem addressCalls_element {is : List Int} {base : Expression} {t r : TypedExpr}
    (hbase : tc.checkExpr b base = .ok t) (hcalls : addressCalls t = [])
    (h : tc.checkExpr b ((is.map indexLiteral).foldl .arrayAccess base) = .ok r) :
    addressCalls r = [] := by
  induction is generalizing base t with
  | nil =>
    cases hbase.symm.trans h
    exact hcalls
  | cons i is ih =>
    have h' : tc.checkExpr b ((is.map indexLiteral).foldl .arrayAccess
      (.arrayAccess base (indexLiteral i))) = .ok r := h
    obtain ⟨t', ht'⟩ := checkExpr_base h'
    refine ih ht' ?_ h'
    obtain ⟨arr, harr, ht'⟩ := bind_eq_ok.1 ht'
    obtain ⟨idx, hidx, ht'⟩ := bind_eq_ok.1 ht'
    obtain ⟨⟨ty, size⟩, -, ht'⟩ := bind_eq_ok.1 ht'
    cases ht'
    cases hbase.symm.trans harr
    cases hidx
    rw [addressCalls, hcalls]
    rfl

/-- Reads of the same element at two addresses are at the same address: in a memory that ends after
the lower one, the other traps. -/
theorem AccessedAt.le (hvar : tc.symbols.vars.lookup name = some info) {is : List Int} {a a' : Nat}
    (hne : is ≠ []) (h : AccessedAt b tc name elem is a) (h' : AccessedAt b tc name elem is a') :
    a ≤ a' := by
  by_contra hlt
  obtain ⟨r, hr, -⟩ := h.accepted (is.map indexLiteral) (List.length_map _) fun e he => by
    obtain ⟨i, -, rfl⟩ := List.mem_map.mp he
    obtain ⟨t, ht, -⟩ := checkExpr_indexLiteral b tc i
    exact ⟨t, ht⟩
  have hcalls : exprCalls r = [] := by
    have haddress := addressCalls_element (checkExpr_variable hvar) rfl hr
    obtain ⟨i, is, rfl⟩ := List.exists_cons_of_ne_nil hne
    obtain ⟨array, idx, size, ty, rfl⟩ := checkExpr_access hr
    exact haddress
  have htree : (WasmEmitter.mk [] []).treeOf (lowerExpr r) .new =
      some (strip (exprCode (WasmEmitter.mk [] []).link r)) := by
    refine ((lowerExpr_emits _ r).treeOf_iff _ _).mpr ⟨?_, rfl⟩
    rw [hcalls]
    rfl
  have hev := evaluates_indexLiterals b tc (WasmEmitter.mk [] []).link bareEnv 0 []
    (.zeroed (a' + elem.accessWidth)) is
  have hread := h.read _ _ _ _ _ _ _ _ _ _ hev hr htree []
  have hread' := h'.read _ _ _ _ _ _ _ _ _ _ hev hr htree []
  have hout : (Memory.zeroed (a' + elem.accessWidth)).size < a + elem.accessWidth := by
    show a' + elem.accessWidth < a + elem.accessWidth
    omega
  rw [Memory.read_eq_none hout] at hread
  rw [Memory.read_eq (Nat.le_refl _), hread] at hread'
  cases hread'

/-- An array that is addressed where its storage holds its elements is based. -/
theorem ArrayAddressed.based (hvar : tc.symbols.vars.lookup name = some info)
    (hty : info.dataType = arrayOf elem (d :: ds)) (helem : elem.isElementary = true)
    (hbounds : ∀ d' ∈ d :: ds, d'.lower ≤ d'.upper)
    (h : ArrayAddressed b tc name info.offset elem (d :: ds)) :
    Based info.offset elem.storage (d :: ds) := by
  have haddress : ∀ is, InBounds (d :: ds) is → codeAddress info.offset elem.storage (d :: ds) is =
      info.offset + displacement elem.storage (d :: ds) is := by
    intro is hi
    have hclaimed := h.element is hi
    have hcode := accessedAt_code hvar hty helem hbounds hi.length_eq hclaimed.accepted
    have hne : is ≠ [] := by
      rintro rfl
      cases hi
    exact Nat.le_antisymm (hcode.le hvar hne hclaimed) (hclaimed.le hvar hne hcode)
  constructor
  · -- the first element starts at the offset
    have hfirst := haddress _ (inBounds_lower hbounds)
    have hmod := emod_toNat (info.offset +
      scaled elem.storage (d :: ds) ((d :: ds).map Dimension.lower))
    rw [displacement_lower] at hfirst
    rw [codeAddress] at hfirst
    omega
  · rw [← haddress _ (inBounds_upper hbounds)]
    exact BitVec.isLt _

/-- For an array of elementary elements with any bounds: every element is accepted, read and
assigned where the storage of the array holds it, exactly when the array is based. -/
theorem arrayAddressed_iff (b : Build) {tc : TypeChecker} {name : String} {info : SymbolInfo}
    (hvar : tc.symbols.vars.lookup name = some info) {elem : DataType} {d : Dimension}
    {ds : List Dimension} (hty : info.dataType = arrayOf elem (d :: ds))
    (helem : elem.isElementary = true) (hbounds : ∀ d' ∈ d :: ds, d'.lower ≤ d'.upper) :
    ArrayAddressed b tc name info.offset elem (d :: ds) ↔
      Based info.offset elem.storage (d :: ds) :=
  ⟨fun h => h.based hvar hty helem hbounds, fun h => h.addressed hvar hty helem hbounds⟩

end Variables

/-- The first variable of a POU. -/
def arraySymbol (ty : DataType) (size : Nat) : SymbolInfo :=
  ⟨"a", ty, .var, reservedBytes, size, false⟩

/-- The checker in a POU with the one variable `a`. -/
def arrayScope (ty : DataType) (size : Nat) : TypeChecker :=
  ⟨⟨[("a", arraySymbol ty size)], [⟨"a", reservedBytes, size⟩]⟩, reservedBytes + size,
    hostSignatures⟩

theorem lookup_arrayScope (ty : DataType) (size : Nat) :
    (arrayScope ty size).symbols.vars.lookup "a" = some (arraySymbol ty size) := rfl

/-- `a : ARRAY[0..9] OF ARRAY[0..3] OF INT`. -/
theorem arrayAddressed_zero :
    TypeChecker.new.declare .debug (.program ⟨"Main", [⟨.var, false,
        [⟨"a", arrayOf .int [⟨0, 9⟩, ⟨0, 3⟩], none⟩]⟩], []⟩) =
      .ok (arrayScope (arrayOf .int [⟨0, 9⟩, ⟨0, 3⟩]) 80) ∧
    ArrayAddressed .debug (arrayScope (arrayOf .int [⟨0, 9⟩, ⟨0, 3⟩]) 80) "a" reservedBytes .int
      [⟨0, 9⟩, ⟨0, 3⟩] := by
  have hbounds : ∀ d ∈ ([⟨0, 9⟩, ⟨0, 3⟩] : List Dimension), d.lower ≤ d.upper := by decide
  refine ⟨rfl, (arrayAddressed_iff .debug (lookup_arrayScope _ 80) rfl rfl hbounds).mpr ?_⟩
  exact ⟨by decide, by decide⟩

/-- `a : ARRAY[1..10] OF INT`, whose first element is taken for the second. -/
theorem arrayAddressed_fails :
    TypeChecker.new.declare .debug (.program ⟨"Main", [⟨.var, false,
        [⟨"a", arrayOf .int [⟨1, 10⟩], none⟩]⟩], []⟩) =
      .ok (arrayScope (arrayOf .int [⟨1, 10⟩]) 20) ∧
    ¬ ArrayAddressed .debug (arrayScope (arrayOf .int [⟨1, 10⟩]) 20) "a" reservedBytes .int
      [⟨1, 10⟩] := by
  have hbounds : ∀ d ∈ ([⟨1, 10⟩] : List Dimension), d.lower ≤ d.upper := by decide
  refine ⟨rfl, fun h => ?_⟩
  have hbased := ArrayAddressed.based (lookup_arrayScope _ 20) rfl rfl hbounds h
  exact absurd hbased.1 (by decide)

end VirtualPlc.Compiler
