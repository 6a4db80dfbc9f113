import VirtualPlc.Compiler.Reference
import VirtualPlc.Compiler.Resolution

/-!
# Stores in memory

A memory represents a store when the bytes of every plain variable hold its value. Where the plain
variables of a scope lie apart from each other within the memory, an assignment by the generated
code changes the represented store like one of the reference semantics (`Represents.assign`), and
the code of a plain expression pushes the value of the expression or traps with it
(`execSeq_plain`).
-/

set_option autoImplicit false

namespace VirtualPlc.Compiler

open VirtualPlc.Word VirtualPlc.Wasm VirtualPlc.Control

/-- The declared types of a scope. -/
def SymbolTable.types (symbols : SymbolTable) : Types := fun name =>
  (symbols.vars.lookup name).map (·.dataType)

/-- A plain variable of the scope. -/
structure SymbolTable.Plain (symbols : SymbolTable) (name : String) (info : SymbolInfo) : Prop where
  found : symbols.vars.lookup name = some info
  plain : info.dataType.isPlain = true

/-- The plain variables of the scope have bytes of their own within a memory of the size. -/
structure SymbolTable.Placed (symbols : SymbolTable) (size : Nat) : Prop where
  small : size < 2 ^ 32
  fits : ∀ {name info}, symbols.Plain name info → info.offset + info.dataType.storage ≤ size
  apart : ∀ {name name' info info'}, symbols.Plain name info → symbols.Plain name' info' →
    name ≠ name' →
    info.offset + info.dataType.storage ≤ info'.offset ∨
      info'.offset + info'.dataType.storage ≤ info.offset

/-- The memory holds the store in the plain variables of the scope; everything else in it is as in
`mem₀`. -/
structure Represents (symbols : SymbolTable) (mem₀ : Memory) (ρ : Store) (mem : Memory) : Prop where
  size : mem.size = mem₀.size
  value : ∀ {name info}, symbols.Plain name info →
    info.dataType.integer (mem.value info.offset info.dataType.storage) = ρ name
  truth : ∀ {name info}, symbols.Plain name info → info.dataType = .bool → ρ name = 0 ∨ ρ name = 1
  outside : ∀ a, (∀ name info, symbols.Plain name info →
    a < info.offset ∨ info.offset + info.dataType.storage ≤ a) → mem.byte a = mem₀.byte a

/-- In the memories of `P` the host functions that return a value answer calls so, and leave the
memory alone. -/
structure AnswersCalls (env : Env Bounds) (link : String → Bool → Nat) (answers : Answers)
    (P : Memory → Prop) : Prop where
  funcType : ∀ {name k}, readArity name = some k →
    env.funcType (link name false) = some ⟨List.replicate k .i32, [.i32]⟩
  call : ∀ {name k}, readArity name = some k → ∀ (xs : List Int) {mem : Memory}, P mem →
    xs.length = k →
    env.call (link name false) (xs.map fun x => .i32 (BitVec.ofInt 32 x)) mem =
      match answers name xs with
      | some w => some (.ok ([.i32 w], mem))
      | none => some (.error .trap)

/-- In the scope the names of these functions are theirs. -/
def TypeChecker.KnowsHosts (tc : TypeChecker) : Prop :=
  ∀ {name k}, readArity name = some k → tc.functions.lookup name = hostSignatures.lookup name

/-! ## Plain values -/

section Values

variable {symbols : SymbolTable} {mem₀ mem : Memory} {ρ : Store} {name : String} {info : SymbolInfo}

theorem isSmall_of_isPlain {ty : DataType} (h : ty.isPlain = true) : ty.isSmall = true := by
  cases ty <;> first | rfl | cases h

theorem isUnsigned_of_isPlain {ty : DataType} (h : ty.isPlain = true) : ty.isUnsigned = false := by
  cases ty <;> first | rfl | cases h

theorem plainVariable_iff :
    plainVariable symbols.types name = true ↔ ∃ info, symbols.Plain name info := by
  unfold plainVariable SymbolTable.types
  constructor
  · intro h
    cases hl : symbols.vars.lookup name with
    | none =>
      rw [hl] at h
      cases h
    | some info =>
      rw [hl] at h
      exact ⟨info, hl, h⟩
  · rintro ⟨info, hl, hplain⟩
    rw [hl]
    exact hplain

theorem SymbolTable.Plain.types (h : symbols.Plain name info) :
    symbols.types name = some info.dataType := by
  rw [SymbolTable.types, h.found]
  rfl

theorem inSigned_toInt (w : BitVec 32) : InSigned 32 w.toInt := by
  have hlow := BitVec.le_toInt (x := w)
  have hhigh := BitVec.toInt_lt (x := w)
  exact ⟨by simpa using hlow, by simpa using hhigh⟩

theorem inSigned_truth (p : Prop) [Decidable p] : InSigned 32 (Compiler.truth p) := by
  rcases truth_eq p with h | h <;> rw [h] <;> decide

theorem inSigned_bmod (v : Int) : InSigned 32 (v.bmod (2 ^ 32)) := by
  have h := inSigned_toInt (BitVec.ofInt 32 v)
  rwa [BitVec.toInt_ofInt] at h

/-- The low bits of a word are those of its integer. -/
theorem ofNat_toNat_ofInt {w : Nat} (hw : w ≤ 32) (v : Int) :
    BitVec.ofNat w ((BitVec.ofInt 32 v).toNat % 2 ^ w) = BitVec.ofInt w v := by
  apply BitVec.eq_of_toNat_eq
  have hdvd : ((2 ^ w : Nat) : Int) ∣ ((2 ^ 32 : Nat) : Int) :=
    Int.natCast_dvd_natCast.2 (Nat.pow_dvd_pow 2 hw)
  have hpos : (0 : Int) < ((2 ^ w : Nat) : Int) := Int.natCast_pos.2 (Nat.two_pow_pos w)
  rw [BitVec.toNat_ofNat, Nat.mod_mod, BitVec.toNat_ofInt, BitVec.toNat_ofInt]
  apply Int.ofNat.inj
  show (((v % ((2 ^ 32 : Nat) : Int)).toNat % 2 ^ w : Nat) : Int) =
    ((v % ((2 ^ w : Nat) : Int)).toNat : Int)
  rw [Int.natCast_emod, Int.toNat_of_nonneg (Int.emod_nonneg _ (by decide)),
    Int.toNat_of_nonneg (Int.emod_nonneg _ hpos.ne')]
  exact Int.emod_emod_of_dvd v hdvd

/-- Reading back what a store leaves of a value. -/
theorem integer_stored {ty : DataType} (h : ty.isPlain = true) {v : Int}
    (hbool : ty = .bool → v = 0 ∨ v = 1) :
    ty.integer ((BitVec.ofInt 32 v).toNat % 256 ^ ty.storage) = ty.keep v := by
  cases ty with
  | sint =>
    show (BitVec.ofNat 8 ((BitVec.ofInt 32 v).toNat % 2 ^ 8)).toInt = v.bmod (2 ^ 8)
    rw [ofNat_toNat_ofInt (by decide), BitVec.toInt_ofInt]
  | int =>
    show (BitVec.ofNat 16 ((BitVec.ofInt 32 v).toNat % 2 ^ 16)).toInt = v.bmod (2 ^ 16)
    rw [ofNat_toNat_ofInt (by decide), BitVec.toInt_ofInt]
  | dint =>
    show (BitVec.ofNat 32 ((BitVec.ofInt 32 v).toNat % 2 ^ 32)).toInt = v.bmod (2 ^ 32)
    rw [ofNat_toNat_ofInt (by decide), BitVec.toInt_ofInt]
  | bool => rcases hbool rfl with rfl | rfl <;> rfl
  | _ => cases h

theorem Represents.inSigned (h : Represents symbols mem₀ ρ mem) (hv : symbols.Plain name info) :
    InSigned 32 (ρ name) := by
  rw [← h.value hv]
  have hplain := hv.plain
  cases hty : info.dataType with
  | bool =>
    have hb := h.truth hv hty
    rw [← h.value hv, hty] at hb
    rcases hb with hb | hb <;> rw [hb] <;> decide
  | sint =>
    have hlow := BitVec.le_toInt (x := BitVec.ofNat 8 (mem.value info.offset DataType.sint.storage))
    have hhigh := BitVec.toInt_lt
      (x := BitVec.ofNat 8 (mem.value info.offset DataType.sint.storage))
    constructor <;> simp only [DataType.integer] <;> omega
  | int =>
    have hlow := BitVec.le_toInt (x := BitVec.ofNat 16 (mem.value info.offset DataType.int.storage))
    have hhigh := BitVec.toInt_lt
      (x := BitVec.ofNat 16 (mem.value info.offset DataType.int.storage))
    constructor <;> simp only [DataType.integer] <;> omega
  | dint => exact inSigned_toInt _
  | _ =>
    rw [hty] at hplain
    cases hplain

/-- Assigning a variable in memory. -/
theorem Represents.assign (hp : symbols.Placed mem₀.size) (h : Represents symbols mem₀ ρ mem)
    (hv : symbols.Plain name info) {v : Int} (hbool : info.dataType = .bool → v = 0 ∨ v = 1) :
    Represents symbols mem₀ (ρ.assign symbols.types name v)
      (mem.set info.offset info.dataType.storage (BitVec.ofInt 32 v).toNat) where
  size := h.size
  value := by
    intro name' info' hv'
    by_cases hname : name' = name
    · subst hname
      obtain rfl : info' = info := Option.some.inj (hv'.found.symm.trans hv.found)
      rw [Memory.value_set_same, integer_stored hv.plain hbool, Store.assign, if_pos rfl, hv.types]
    · rw [Memory.value_set_of_disjoint (hp.apart hv' hv hname), h.value hv', Store.assign,
        if_neg hname]
  truth := by
    intro name' info' hv' hty
    by_cases hname : name' = name
    · subst hname
      obtain rfl : info' = info := Option.some.inj (hv'.found.symm.trans hv.found)
      rw [Store.assign, if_pos rfl, hv.types, hty]
      exact hbool hty
    · rw [Store.assign, if_neg hname]
      exact h.truth hv' hty
  outside := by
    intro a ha
    rw [Memory.byte_set_of_outside (ha name info hv)]
    exact h.outside a ha

end Values

/-! ## Plain operators -/

section Operators

variable {x y : Int}

theorem ofInt_bmod (v : Int) : BitVec.ofInt 32 (v.bmod (2 ^ 32)) = BitVec.ofInt 32 v := by
  apply BitVec.eq_of_toInt_eq
  rw [BitVec.toInt_ofInt, BitVec.toInt_ofInt, Int.bmod_bmod]

theorem ofInt_eq_zero_iff (hy : InSigned 32 y) : BitVec.ofInt 32 y = 0 ↔ y = 0 := by
  have hzero : (0 : BitVec 32) = BitVec.ofInt 32 0 := rfl
  rw [hzero]
  exact ofInt_inj_of_inSigned (by decide) hy (by decide)

/-- The quotient of two 32-bit integers is too large only for the least one and -1. -/
theorem tdiv_lt_iff (hx : InSigned 32 x) (hy : InSigned 32 y) (hzero : y ≠ 0) :
    x.tdiv y < 2 ^ 31 ↔ ¬ (x = -2 ^ 31 ∧ y = -1) := by
  obtain ⟨hlow, hhigh⟩ := hx
  have habs : (x.tdiv y).natAbs = x.natAbs / y.natAbs := Int.natAbs_tdiv x y
  have hle : x.natAbs / y.natAbs ≤ x.natAbs := Nat.div_le_self _ _
  simp only [Nat.reduceSub] at hlow hhigh
  constructor
  · rintro hlt ⟨rfl, rfl⟩
    exact absurd hlt (by decide)
  · intro hne
    by_cases hmin : x = -2 ^ 31
    · subst hmin
      -- a divisor of absolute value 1 is 1, and a larger one makes the quotient small
      by_cases hone : y = 1
      · subst hone
        decide
      · have htwo : 2 ≤ y.natAbs := by omega
        have hhalf : (-2 ^ 31 : Int).natAbs / y.natAbs ≤ (-2 ^ 31 : Int).natAbs / 2 :=
          Nat.div_le_div_left htwo (by decide)
        have hbound : (-2 ^ 31 : Int).natAbs / 2 = 2 ^ 30 := by decide
        omega
    · omega

theorem neg_tdiv_le (hx : InSigned 32 x) : -2 ^ 31 ≤ x.tdiv y := by
  obtain ⟨hlow, hhigh⟩ := hx
  have habs : (x.tdiv y).natAbs = x.natAbs / y.natAbs := Int.natAbs_tdiv x y
  have hle : x.natAbs / y.natAbs ≤ x.natAbs := Nat.div_le_self _ _
  simp only [Nat.reduceSub] at hlow hhigh
  omega

theorem inSigned_tmod (hy : InSigned 32 y) (hzero : y ≠ 0) : InSigned 32 (x.tmod y) := by
  obtain ⟨hlow, hhigh⟩ := hy
  have habs : (x.tmod y).natAbs = x.natAbs % y.natAbs := Int.natAbs_tmod x y
  have hlt : x.natAbs % y.natAbs < y.natAbs := Nat.mod_lt _ (by omega)
  simp only [Nat.reduceSub] at hlow hhigh
  constructor <;> simp only [Nat.reduceSub] <;> omega

/-- The machine's division, which traps on 0 and on the quotient that is out of range. -/
theorem eval_divS (hx : InSigned 32 x) (hy : InSigned 32 y) :
    IntBin.divS.eval (BitVec.ofInt 32 x) (BitVec.ofInt 32 y) =
      (BinaryOp.div.compute x y).map (BitVec.ofInt 32) := by
  have hzero : BitVec.ofInt 32 y = 0 ↔ y = 0 := ofInt_eq_zero_iff hy
  have hmin : BitVec.ofInt 32 x = BitVec.intMin 32 ↔ x = -2 ^ 31 := by
    rw [show BitVec.intMin 32 = BitVec.ofInt 32 (-2 ^ 31) by decide]
    exact ofInt_inj_of_inSigned (by decide) hx (by decide)
  have hneg : BitVec.ofInt 32 y = BitVec.allOnes 32 ↔ y = -1 := by
    rw [show BitVec.allOnes 32 = BitVec.ofInt 32 (-1) by decide]
    exact ofInt_inj_of_inSigned (by decide) hy (by decide)
  rw [IntBin.eval, BinaryOp.compute]
  by_cases hy0 : y = 0
  · rw [if_pos (.inl (hzero.2 hy0)), if_neg (fun h => h.1 hy0)]
    rfl
  · by_cases hlt : x.tdiv y < 2 ^ 31
    · have hne := (tdiv_lt_iff hx hy hy0).1 hlt
      rw [if_neg (fun h => h.elim (fun h0 => hy0 (hzero.1 h0))
        (fun h1 => hne ⟨hmin.1 h1.1, hneg.1 h1.2⟩)), if_pos ⟨hy0, hlt⟩]
      show some _ = some _
      rw [Option.some.injEq]
      apply BitVec.eq_of_toInt_eq
      rw [BitVec.toInt_sdiv, toInt_ofInt_of_inSigned (by decide) hx,
        toInt_ofInt_of_inSigned (by decide) hy, BitVec.toInt_ofInt]
    · have heq : x = -2 ^ 31 ∧ y = -1 := by
        by_contra hne
        exact hlt ((tdiv_lt_iff hx hy hy0).2 hne)
      rw [if_pos (.inr ⟨hmin.2 heq.1, hneg.2 heq.2⟩), if_neg (fun h => hlt h.2)]
      rfl

/-- The machine's remainder. -/
theorem eval_remS (hx : InSigned 32 x) (hy : InSigned 32 y) :
    IntBin.remS.eval (BitVec.ofInt 32 x) (BitVec.ofInt 32 y) =
      (BinaryOp.mod.compute x y).map (BitVec.ofInt 32) := by
  have hzero : BitVec.ofInt 32 y = 0 ↔ y = 0 := ofInt_eq_zero_iff hy
  rw [IntBin.eval, BinaryOp.compute]
  by_cases hy0 : y = 0
  · rw [if_pos (hzero.2 hy0), if_neg (fun h => h hy0)]
    rfl
  · rw [if_neg (fun h => hy0 (hzero.1 h)), if_pos hy0]
    show some _ = some _
    rw [Option.some.injEq]
    apply BitVec.eq_of_toInt_eq
    rw [BitVec.toInt_srem, toInt_ofInt_of_inSigned (by decide) hx,
      toInt_ofInt_of_inSigned (by decide) hy,
      toInt_ofInt_of_inSigned (by decide) (inSigned_tmod hy hy0)]

/-- Plain operators give 32-bit integers. -/
theorem inSigned_compute {op : BinaryOp} {v : Int} (hx : InSigned 32 x) (hy : InSigned 32 y)
    (hop : op.isPlain = true) (hv : op.compute x y = some v) : InSigned 32 v := by
  cases op with
  | add | sub | mul =>
    cases hv
    exact inSigned_bmod _
  | div =>
    rw [BinaryOp.compute] at hv
    split at hv
    · next h =>
      cases hv
      exact ⟨neg_tdiv_le hx, h.2⟩
    · cases hv
  | mod =>
    rw [BinaryOp.compute] at hv
    split at hv
    · next h =>
      cases hv
      exact inSigned_tmod hy h
    · cases hv
  | eq | ne | lt | le | gt | ge | and | or | xor =>
    cases hv
    exact inSigned_truth _
  | _ => cases hop

/-- The generated operation of a plain operator computes its result or traps with it. -/
theorem stepOp_plainOp {op : BinaryOp} {ty : DataType} (env : Env Bounds) (st l : List Value)
    (m : Memory) (hty : ty.isSmall = true) (hop : op.isPlain = true) (hx : InSigned 32 x)
    (hy : InSigned 32 y)
    (hbool : op = .and ∨ op = .or ∨ op = .xor → (x = 0 ∨ x = 1) ∧ (y = 0 ∨ y = 1)) :
    stepOp env (binaryOp op ty) ⟨.i32 (BitVec.ofInt 32 y) :: .i32 (BitVec.ofInt 32 x) :: st, l, m⟩ =
      State.pushOrTrap ⟨st, l, m⟩ ((op.compute x y).map fun v => .i32 (BitVec.ofInt 32 v)) := by
  cases op with
  | div =>
    rw [binaryOp, selectOp_small hty, stepOp_i32Bin, eval_divS hx hy, Option.map_map]
    rfl
  | mod =>
    rw [binaryOp, stepOp_i32Bin, eval_remS hx hy, Option.map_map]
    rfl
  | add =>
    rw [stepOp_binaryOp env st l m hty rfl hx hy hbool rfl, BinaryOp.compute, Option.map_some,
      ofInt_bmod]
    rfl
  | sub =>
    rw [stepOp_binaryOp env st l m hty rfl hx hy hbool rfl, BinaryOp.compute, Option.map_some,
      ofInt_bmod]
    rfl
  | mul =>
    rw [stepOp_binaryOp env st l m hty rfl hx hy hbool rfl, BinaryOp.compute, Option.map_some,
      ofInt_bmod]
    rfl
  | eq | ne | lt | le | gt | ge | and | or | xor =>
    rw [stepOp_binaryOp env st l m hty rfl hx hy hbool rfl]
    rfl
  | _ => cases hop

/-- Type of a plain operator on small operands. -/
theorem binaryResultType_plain {l r ty : DataType} {op : BinaryOp} (hl : l.isSmall = true)
    (hr : r.isSmall = true) (hop : op.isPlain = true) (h : binaryResultType l op r = .ok ty) :
    ty.isSmall = true ∧ (op = .and ∨ op = .or ∨ op = .xor → l = .bool ∧ r = .bool) ∧
      (ty = .bool → ∀ x y v, op.compute x y = some v → v = 0 ∨ v = 1) := by
  cases op with
  | div | mod =>
    cases h
    have hp := numericPromotion_isSmall hl hr
    exact ⟨hp.1, by simp, fun hb => absurd hb hp.2⟩
  | add | sub | mul =>
    obtain ⟨hsmall, hlogic, harith⟩ := binaryResultType_basic hl hr rfl h
    exact ⟨hsmall, hlogic, fun hb => absurd hb (harith (by simp))⟩
  | eq | ne | lt | le | gt | ge | and | or | xor =>
    obtain ⟨hsmall, hlogic, -⟩ := binaryResultType_basic hl hr rfl h
    refine ⟨hsmall, hlogic, ?_⟩
    intro _ x y v hv
    cases hv
    exact truth_eq _
  | _ => cases hop

end Operators

/-! ## Plain expressions -/

section Expressions

variable {b : Build} {tc : TypeChecker}

theorem checkCallee_reader (hk : tc.KnowsHosts) {name : String} {k : Nat}
    (hname : readArity name = some k) {sig : FunctionSignature}
    (h : tc.checkCallee name = .ok sig) : sig.isUserDefined = false ∧ sig.returnType = .int := by
  rw [TypeChecker.checkCallee, hk hname] at h
  unfold readArity at hname
  split at hname
  · next hn =>
    subst hn
    cases h
    exact ⟨rfl, rfl⟩
  · split at hname
    · next hn =>
      subst hn
      cases h
      exact ⟨rfl, rfl⟩
    · split at hname
      · next hn =>
        subst hn
        cases h
        exact ⟨rfl, rfl⟩
      · cases hname

/-- The typed form of a plain call. -/
theorem checkExpr_call (hk : tc.KnowsHosts) {name : String}
    {arguments : List (Option String × Expression)} {k : Nat} (hname : readArity name = some k)
    {t : TypedExpr} (h : tc.checkExpr b (.call name arguments) = .ok t) :
    ∃ ts, tc.checkArguments b arguments = .ok ts ∧ t = .call name ts false .int := by
  rw [TypeChecker.checkExpr] at h
  obtain ⟨held, hheld, h⟩ := bind_eq_ok.1 h
  obtain ⟨sig, hsig, h⟩ := bind_eq_ok.1 h
  obtain ⟨ts, hts, h⟩ := bind_eq_ok.1 h
  cases h
  obtain ⟨huser, hreturn⟩ := checkCallee_reader hk hname hsig
  exact ⟨ts, hold_ok hheld hts, by rw [huser, hreturn]⟩

/-- Plain expressions have small types. -/
theorem plain_isSmall (hk : tc.KnowsHosts) : ∀ (e : Expression) {t : TypedExpr},
    e.plain tc.symbols.types = true → tc.checkExpr b e = .ok t → t.ty.isSmall = true
  | .literal (.bool v), t, _, h => by
    cases h
    rfl
  | .literal (.integer v), t, hp, h => by
    obtain ⟨ty, bits, hc, -, hs, -⟩ := checkLiteral_integer (of_decide_eq_true hp)
    rw [TypeChecker.checkExpr, hc] at h
    cases h
    exact hs
  | .variable name, t, hp, h => by
    obtain ⟨info, hinfo⟩ := plainVariable_iff.1 hp
    rw [checkExpr_variable hinfo.found] at h
    cases h
    exact isSmall_of_isPlain hinfo.plain
  | .binary left op right, t, hp, h => by
    simp only [Expression.plain, Bool.and_eq_true] at hp
    obtain ⟨l, r, ty, hl, hr, hty, rfl⟩ := checkExpr_binary h
    exact (binaryResultType_plain (plain_isSmall hk left hp.2.1 hl)
      (plain_isSmall hk right hp.2.2 hr) hp.1 hty).1
  | .unary op operand, t, hp, h => by
    simp only [Expression.plain, Bool.and_eq_true, beq_iff_eq] at hp
    obtain ⟨rfl, hp⟩ := hp
    obtain ⟨x, ty, hx, hty, rfl⟩ := checkExpr_unary h
    obtain ⟨-, rfl⟩ := checkUnary_not hty
    rfl
  | .call name arguments, t, hp, h => by
    simp only [Expression.plain, Bool.and_eq_true, beq_iff_eq] at hp
    obtain ⟨ts, -, rfl⟩ := checkExpr_call hk hp.1 h
    rfl
  | .paren inner, t, hp, h => by
    rw [TypeChecker.checkExpr] at h
    exact plain_isSmall hk inner hp h
  | .literal (.real _), _, hp, _ | .literal (.string _), _, hp, _ | .literal (.time _), _, hp, _
  | .literal (.date ..), _, hp, _ | .literal (.timeOfDay _), _, hp, _
  | .literal (.dateTime ..), _, hp, _ | .arrayAccess .., _, hp, _ | .fieldAccess .., _, hp, _ => by
    cases hp

variable {mem₀ mem : Memory} {ρ : Store} {answers : Answers}

/-- The operands for arguments, the last on top. -/
def operands (xs : List Int) (st : List Value) : List Value :=
  (xs.map fun x => Value.i32 (BitVec.ofInt 32 x)).reverse ++ st

mutual
/-- A plain expression has a 32-bit value, a BOOL one a truth value. -/
theorem eval_range (hk : tc.KnowsHosts) (h : Represents tc.symbols mem₀ ρ mem) :
    ∀ (e : Expression) {t : TypedExpr} {v : Int}, e.plain tc.symbols.types = true →
      tc.checkExpr b e = .ok t → e.eval answers ρ = some v →
        InSigned 32 v ∧ (t.ty = .bool → v = 0 ∨ v = 1)
  | .literal (.bool u), t, v, _, _, hv => by
    cases hv
    exact ⟨inSigned_truth _, fun _ => truth_eq _⟩
  | .literal (.integer u), t, v, hp, ht, hv => by
    obtain ⟨ty, bits, hc, -, -, hne⟩ := checkLiteral_integer (of_decide_eq_true hp)
    rw [TypeChecker.checkExpr, hc] at ht
    cases ht
    cases hv
    exact ⟨of_decide_eq_true hp, fun hb => absurd hb hne⟩
  | .variable name, t, v, hp, ht, hv => by
    obtain ⟨info, hinfo⟩ := plainVariable_iff.1 hp
    rw [checkExpr_variable hinfo.found] at ht
    cases ht
    cases hv
    exact ⟨h.inSigned hinfo, h.truth hinfo⟩
  | .binary left op right, t, v, hp, ht, hv => by
    simp only [Expression.plain, Bool.and_eq_true] at hp
    obtain ⟨l, r, ty, hl, hr, hty, rfl⟩ := checkExpr_binary ht
    rw [Expression.eval] at hv
    obtain ⟨x, hx, hv⟩ := Option.bind_eq_some_iff.1 hv
    obtain ⟨y, hy, hv⟩ := Option.bind_eq_some_iff.1 hv
    have hxr := eval_range hk h left hp.2.1 hl hx
    have hyr := eval_range hk h right hp.2.2 hr hy
    obtain ⟨-, -, hbool⟩ := binaryResultType_plain (plain_isSmall hk left hp.2.1 hl)
      (plain_isSmall hk right hp.2.2 hr) hp.1 hty
    exact ⟨inSigned_compute hxr.1 hyr.1 hp.1 hv, fun hb => hbool hb x y v hv⟩
  | .unary op operand, t, v, hp, ht, hv => by
    simp only [Expression.plain, Bool.and_eq_true, beq_iff_eq] at hp
    obtain ⟨rfl, hp⟩ := hp
    obtain ⟨x, ty, hx, hty, rfl⟩ := checkExpr_unary ht
    rw [Expression.eval] at hv
    obtain ⟨z, hz, rfl⟩ := Option.map_eq_some_iff.1 hv
    -- NOT takes a truth value, 0 or 1, and flips it
    have hb : z = 0 ∨ z = 1 := (eval_range hk h operand hp hx hz).2 (checkUnary_not hty).1
    rcases hb with rfl | rfl
    · exact ⟨by decide, fun _ => .inr rfl⟩
    · exact ⟨by decide, fun _ => .inl rfl⟩
  | .call name arguments, t, v, hp, ht, hv => by
    simp only [Expression.plain, Bool.and_eq_true, beq_iff_eq] at hp
    obtain ⟨ts, -, rfl⟩ := checkExpr_call hk hp.1 ht
    rw [Expression.eval] at hv
    obtain ⟨xs, -, hv⟩ := Option.bind_eq_some_iff.1 hv
    obtain ⟨w, -, rfl⟩ := Option.map_eq_some_iff.1 hv
    exact ⟨inSigned_toInt w, fun hb => by cases hb⟩
  | .paren inner, t, v, hp, ht, hv => by
    rw [TypeChecker.checkExpr] at ht
    rw [Expression.eval] at hv
    exact eval_range hk h inner hp ht hv
  | .literal (.real _), _, _, hp, _, _ | .literal (.string _), _, _, hp, _, _
  | .literal (.time _), _, _, hp, _, _ | .literal (.date ..), _, _, hp, _, _
  | .literal (.timeOfDay _), _, _, hp, _, _ | .literal (.dateTime ..), _, _, hp, _, _
  | .arrayAccess .., _, _, hp, _, _ | .fieldAccess .., _, _, hp, _, _ => by cases hp
end

theorem evalArguments_length (answers : Answers) (ρ : Store) :
    ∀ (arguments : List (Option String × Expression)) {xs : List Int},
      evalArguments answers ρ arguments = some xs → xs.length = arguments.length
  | [], _, h => by
    cases h
    rfl
  | (_, value) :: rest, _, h => by
    rw [evalArguments] at h
    obtain ⟨x, -, h⟩ := Option.bind_eq_some_iff.1 h
    obtain ⟨xs, hxs, rfl⟩ := Option.map_eq_some_iff.1 h
    rw [List.length_cons, List.length_cons, evalArguments_length answers ρ rest hxs]

variable {env : Env Bounds} {link : String → Bool → Nat} {P : Memory → Prop}

/-- Calling one of the host functions with its arguments on the stack. -/
theorem stepOp_call (ha : AnswersCalls env link answers P) (hP : P mem) {name : String} {k : Nat}
    (hname : readArity name = some k) (xs : List Int) (hlength : xs.length = k)
    (st l : List Value) :
    stepOp env (.call (link name false)) ⟨operands xs st, l, mem⟩ =
      State.pushOrTrap ⟨st, l, mem⟩ ((answers name xs).map Value.i32) := by
  have htype : (xs.map fun x => Value.i32 (BitVec.ofInt 32 x)).map Value.type =
      List.replicate k .i32 := by
    rw [List.map_map, ← hlength]
    exact List.map_const'
  have hlen : (List.replicate k ValType.i32).length =
      (xs.map fun x => Value.i32 (BitVec.ofInt 32 x)).reverse.length := by simp [hlength]
  show State.callWith env _ _ = _
  rw [State.callWith, ha.funcType hname]
  simp only [operands, hlen, List.take_left', List.drop_left', List.reverse_reverse]
  rw [if_pos htype, ha.call hname xs hP hlength]
  cases answers name xs <;> rfl

/-- The code of `t` pushes the value of `e`, or traps where `e` has none. -/
def Computes (answers : Answers) (ρ : Store) (mem : Memory) (env : Env Bounds)
    (link : String → Bool → Nat) (e : Expression) (t : TypedExpr) : Prop :=
  ∀ (n : Nat) (st l : List Value),
    execSeq (machine env) n (exprCode link t) ⟨st, l, mem⟩ =
      State.pushOrTrap ⟨st, l, mem⟩ ((e.eval answers ρ).map fun v => .i32 (BitVec.ofInt 32 v))

theorem computes_integer {v : Int} (hv : InSigned 32 v) {t : TypedExpr}
    (ht : checkLiteral (.integer v) = .ok t) :
    Computes answers ρ mem env link (.literal (.integer v)) t := by
  obtain ⟨ty, bits, hc, hbits, -, -⟩ := checkLiteral_integer hv
  rw [hc] at ht
  cases ht
  intro n st l
  rw [exprCode, literalValue, if_pos hbits]
  rfl

/-- The code of a variable loads the value that the memory stores for it. -/
theorem computes_variable (hp : tc.symbols.Placed mem₀.size)
    (h : Represents tc.symbols mem₀ ρ mem) {name : String} {info : SymbolInfo}
    (hinfo : tc.symbols.Plain name info) :
    Computes answers ρ mem env link (.variable name)
      (.variable name info.offset info.dataType) := by
  intro n st l
  have hsmall := isSmall_of_isPlain hinfo.plain
  have hfits := hp.fits hinfo
  have hsize := hp.small
  have hread : mem.read info.offset info.dataType.storage =
      some (mem.value info.offset info.dataType.storage) :=
    Memory.read_eq (by rw [h.size]; exact hfits)
  rw [execSeq_variable, asU32_of_lt (by omega), ← storage_small hsmall, hread, Option.map_some,
    decode_small hsmall, h.value hinfo]
  · rfl
  · intro hb
    have hvalue := h.value hinfo
    have htruth := h.truth hinfo hb
    rw [hb] at hvalue ⊢
    rw [← hvalue] at htruth
    exact htruth.imp Int.ofNat.inj Int.ofNat.inj
  · intro hu
    rw [isUnsigned_of_isPlain hinfo.plain] at hu
    cases hu

/-- Both operands are computed in order, then the operation. -/
theorem computes_binary (hk : tc.KnowsHosts) (h : Represents tc.symbols mem₀ ρ mem)
    {left right : Expression} {op : BinaryOp} {l r : TypedExpr} {ty : DataType}
    (hop : op.isPlain = true) (hpl : left.plain tc.symbols.types = true)
    (hpr : right.plain tc.symbols.types = true) (hl : tc.checkExpr b left = .ok l)
    (hr : tc.checkExpr b right = .ok r) (hty : binaryResultType l.ty op r.ty = .ok ty)
    (hleft : Computes answers ρ mem env link left l)
    (hright : Computes answers ρ mem env link right r) :
    Computes answers ρ mem env link (.binary left op right) (.binary l op r ty) := by
  intro n st locals
  have hlsmall := plain_isSmall hk left hpl hl
  have hrsmall := plain_isSmall hk right hpr hr
  rw [exprCode, execSeq_append, hleft n st locals, Expression.eval]
  cases hx : left.eval answers ρ with
  | none => rfl
  | some x =>
    rw [Option.map_some, State.pushOrTrap_some, State.push_mk, Outcome.andThen_normal,
      execSeq_append, hright n _ locals, Option.bind_some]
    cases hy : right.eval answers ρ with
    | none => rfl
    | some y =>
      have hxr := eval_range hk h left hpl hl hx
      have hyr := eval_range hk h right hpr hr hy
      obtain ⟨-, hlogic, -⟩ := binaryResultType_plain hlsmall hrsmall hop hty
      rw [Option.bind_some, ← stepOp_plainOp env st locals mem hlsmall hop hxr.1 hyr.1
        fun ho => ⟨hxr.2 (hlogic ho).1, hyr.2 (hlogic ho).2⟩]
      exact execSeq_singleton (machine env) n (.op (binaryOp op l.ty)) _

theorem computes_not (hk : tc.KnowsHosts) (h : Represents tc.symbols mem₀ ρ mem)
    {operand : Expression} {x : TypedExpr} {ty : DataType}
    (hpl : operand.plain tc.symbols.types = true) (hx : tc.checkExpr b operand = .ok x)
    (hbool : x.ty = .bool) (hoperand : Computes answers ρ mem env link operand x) :
    Computes answers ρ mem env link (.unary .not operand) (.unary .not x ty) := by
  intro n st l
  rw [exprCode, execSeq_append, hoperand n st l, Expression.eval]
  cases hz : operand.eval answers ρ with
  | none => rfl
  | some z => exact stepOps_not env n st l mem x.ty ((eval_range hk h operand hpl hx hz).2 hbool)

/-- Once its arguments are on the stack, the call answers as the reference does. -/
theorem computes_call (ha : AnswersCalls env link answers P) (hP : P mem) {name : String}
    {arguments : List (Option String × Expression)} {ts : List TypedExpr}
    (hname : readArity name = some arguments.length)
    (harguments : ∀ (n : Nat) (st l : List Value),
      execSeq (machine env) n (argumentsCode link ts) ⟨st, l, mem⟩ =
        match evalArguments answers ρ arguments with
        | some xs => .normal ⟨operands xs st, l, mem⟩
        | none => .abort .trap) :
    Computes answers ρ mem env link (.call name arguments) (.call name ts false .int) := by
  intro n st l
  rw [exprCode, execSeq_append, harguments n st l, Expression.eval]
  cases hxs : evalArguments answers ρ arguments with
  | none => rfl
  | some xs =>
    have hlength := evalArguments_length answers ρ arguments hxs
    have hcall := (execSeq_singleton (machine env) n (.op (.call (link name false)))
      ⟨operands xs st, l, mem⟩).trans (stepOp_call ha hP hname xs hlength st l)
    refine Eq.trans hcall ?_
    rw [Option.bind_some, Option.map_map]
    cases answers name xs with
    | none => rfl
    | some w =>
      rw [Option.map_some, Option.map_some, Function.comp_apply, BitVec.ofInt_toInt]

mutual
/-- The code of a plain expression pushes its value or traps with it. -/
theorem execSeq_plain (hk : tc.KnowsHosts) (hp : tc.symbols.Placed mem₀.size)
    (ha : AnswersCalls env link answers P) (hP : P mem) (h : Represents tc.symbols mem₀ ρ mem) :
    ∀ (e : Expression) {t : TypedExpr}, e.plain tc.symbols.types = true → tc.checkExpr b e = .ok t →
      ∀ (n : Nat) (st l : List Value),
        execSeq (machine env) n (exprCode link t) ⟨st, l, mem⟩ =
          State.pushOrTrap ⟨st, l, mem⟩
            ((e.eval answers ρ).map fun v => .i32 (BitVec.ofInt 32 v))
  | .literal (.bool v), t, _, ht, n, st, l => by
    cases ht
    cases v <;> rfl
  | .literal (.integer v), t, hpl, ht, n, st, l =>
    computes_integer (of_decide_eq_true hpl) ht n st l
  | .variable name, t, hpl, ht, n, st, l => by
    obtain ⟨info, hinfo⟩ := plainVariable_iff.1 hpl
    rw [checkExpr_variable hinfo.found] at ht
    cases ht
    exact computes_variable hp h hinfo n st l
  | .binary left op right, t, hpl, ht, n, st, l => by
    simp only [Expression.plain, Bool.and_eq_true] at hpl
    obtain ⟨tl, tr, ty, hl, hr, hty, rfl⟩ := checkExpr_binary ht
    exact computes_binary hk h hpl.1 hpl.2.1 hpl.2.2 hl hr hty
      (execSeq_plain hk hp ha hP h left hpl.2.1 hl)
      (execSeq_plain hk hp ha hP h right hpl.2.2 hr) n st l
  | .unary op operand, t, hpl, ht, n, st, l => by
    simp only [Expression.plain, Bool.and_eq_true, beq_iff_eq] at hpl
    obtain ⟨rfl, hpl⟩ := hpl
    obtain ⟨x, ty, hx, hty, rfl⟩ := checkExpr_unary ht
    exact computes_not hk h hpl hx (checkUnary_not hty).1
      (execSeq_plain hk hp ha hP h operand hpl hx) n st l
  | .call name arguments, t, hpl, ht, n, st, l => by
    simp only [Expression.plain, Bool.and_eq_true, beq_iff_eq] at hpl
    obtain ⟨ts, hts, rfl⟩ := checkExpr_call hk hpl.1 ht
    exact computes_call ha hP hpl.1
      (execSeq_plainArguments hk hp ha hP h arguments hpl.2 hts) n st l
  | .paren inner, t, hpl, ht, n, st, l => by
    rw [TypeChecker.checkExpr] at ht
    rw [Expression.eval]
    exact execSeq_plain hk hp ha hP h inner hpl ht n st l
  | .literal (.real _), _, hpl, _, _, _, _ | .literal (.string _), _, hpl, _, _, _, _
  | .literal (.time _), _, hpl, _, _, _, _ | .literal (.date ..), _, hpl, _, _, _, _
  | .literal (.timeOfDay _), _, hpl, _, _, _, _ | .literal (.dateTime ..), _, hpl, _, _, _, _
  | .arrayAccess .., _, hpl, _, _, _, _ | .fieldAccess .., _, hpl, _, _, _, _ => by cases hpl
/-- The code of plain arguments pushes their values in order. -/
theorem execSeq_plainArguments (hk : tc.KnowsHosts) (hp : tc.symbols.Placed mem₀.size)
    (ha : AnswersCalls env link answers P) (hP : P mem) (h : Represents tc.symbols mem₀ ρ mem) :
    ∀ (arguments : List (Option String × Expression)) {ts : List TypedExpr},
      plainArguments tc.symbols.types arguments = true → tc.checkArguments b arguments = .ok ts →
      ∀ (n : Nat) (st l : List Value),
        execSeq (machine env) n (argumentsCode link ts) ⟨st, l, mem⟩ =
          match evalArguments answers ρ arguments with
          | some xs => .normal ⟨operands xs st, l, mem⟩
          | none => .abort .trap
  | [], ts, _, ht, n, st, l => by
    cases ht
    rfl
  | (_, value) :: rest, ts, hpl, ht, n, st, l => by
    simp only [plainArguments, Bool.and_eq_true] at hpl
    rw [TypeChecker.checkArguments] at ht
    obtain ⟨t, hvalue, ht⟩ := bind_eq_ok.1 ht
    obtain ⟨ts', hrest, ht⟩ := bind_eq_ok.1 ht
    cases ht
    rw [argumentsCode, execSeq_append, execSeq_plain hk hp ha hP h value hpl.1 hvalue n st l,
      evalArguments]
    cases value.eval answers ρ with
    | none => rfl
    | some x =>
      rw [Option.map_some, State.pushOrTrap_some, State.push_mk, Outcome.andThen_normal,
        execSeq_plainArguments hk hp ha hP h rest hpl.2 hrest n _ l,
        Option.bind_some]
      cases evalArguments answers ρ rest with
      | none => rfl
      | some xs => simp [operands]
end

end Expressions

end VirtualPlc.Compiler
