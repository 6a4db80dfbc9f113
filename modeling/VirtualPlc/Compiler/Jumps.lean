import VirtualPlc.Compiler.Access
import VirtualPlc.Compiler.Emission
import VirtualPlc.Compiler.Layout
import VirtualPlc.Control.Position

/-!
# EXIT and CONTINUE

`JumpsRight` says where each EXIT and CONTINUE of a compilation unit has to lead: to the position
just after its loop, and to the end of the body of its loop. `jumpsRight_iff`: the lowered jumps do
so exactly when the conditionals around an EXIT are one fewer than the loops around it, and a
CONTINUE stands directly in a WHILE, or in a conditional after which its iteration has nothing left
to run.
-/

set_option autoImplicit false

namespace VirtualPlc.Compiler

open VirtualPlc.Word VirtualPlc.Wasm VirtualPlc.Control

/-! ## Where a jump has to lead -/

/-- A point of control in the emitted code. -/
abbrev Spot := Position Op Bounds State

/-- The point before the emitted `code` that leads to `k`. -/
def Spot.before (code : PlcCode) (k : Spot) : Spot := ⟨strip code ++ k.code, k.levels⟩

/-- The end of an arm of a conditional that was entered in the state `s` and leads to `k`. -/
def Spot.arm (k : Spot) (s : State) : Spot := ⟨[], ⟨none, k.code, s⟩ :: k.levels⟩

/-- The code of a loop: what stands before and after its body. -/
structure LoopCode where
  test : PlcCode
  body : PlcCode
  rest : PlcCode

/-- The code between the labels of a loop. -/
def LoopCode.source (c : LoopCode) : PlcCode := c.test ++ (c.body ++ c.rest)

/-- The emitted code between the labels of a loop. -/
def LoopCode.all (c : LoopCode) : PlcCode := strip c.source

/-- A point in a loop that leads to `k`; its block and its loop were entered in the state `s`. -/
def LoopCode.inside (c : LoopCode) (code : PlcCode) (k : Spot) (s : State) : Spot :=
  ⟨code, ⟨some c.all, [], s⟩ :: ⟨none, k.code, s⟩ :: k.levels⟩

/-- FOR: test the variable before the body, increase it after the body. -/
def forLoop (link : String → Bool → Nat) (varOffset : Nat) (stop : TypedExpr)
    (step : Option TypedExpr) (body : PlcCode) : LoopCode where
  test := ops [.const (.i32 0), .load .i32 (asU32 varOffset)] ++
    (exprCode link stop ++ ops [.i32Rel .gtS, .brIf 1])
  body := body
  rest := ops [.const (.i32 0), .const (.i32 0), .load .i32 (asU32 varOffset)] ++
    (stepCode link step ++ ops [.i32Bin .add, .store .i32 (asU32 varOffset), .br 0])

/-- WHILE: evaluate the condition before the body. -/
def whileLoop (link : String → Bool → Nat) (condition : TypedExpr) (body : PlcCode) : LoopCode where
  test := exprCode link condition ++ ops [.i32Eqz, .brIf 1]
  body := body
  rest := ops [.br 0]

/-- REPEAT: evaluate the condition after the body. -/
def repeatLoop (link : String → Bool → Nat) (untilCond : TypedExpr) (body : PlcCode) :
    LoopCode where
  test := []
  body := body
  rest := exprCode link untilCond ++ ops [.brIf 1, .br 0]

/-- Where the jumps of a loop have to lead: an EXIT to the point after the loop, a CONTINUE to the
end of the body, or to the start of the loop where that comes to the same. -/
structure Targets where
  exit : Spot
  finish : Spot
  start : Spot
  restart : Bool

/-- The targets in a loop that leads to `k`. Only a WHILE has nothing to do after its body. -/
def LoopCode.targets (c : LoopCode) (restart : Bool) (k : Spot) (s : State) : Targets :=
  ⟨k, c.inside (strip c.rest) k s, c.inside c.all k s, restart⟩

/-- Running `code` before `k` jumps to `p`. -/
def JumpsTo (code : PlcCode) (k p : Spot) : Prop :=
  ∀ (env : Env Bounds) (s : State), ∃ s', Step (machine env) (k.before code, s) (p, s')

/-- Every EXIT and CONTINUE in the body of a loop leads where it has to. -/
def LoopCode.right (c : LoopCode) (restart : Bool) (body : Spot → Option Targets → Prop)
    (k : Spot) : Prop :=
  ∀ s, body (c.inside (strip c.rest) k s) (some (c.targets restart k s))

mutual
/-- Every EXIT and CONTINUE of a statement that leads to `k` leads where it has to. -/
def stmtRight (link : String → Bool → Nat) :
    TypedStatement → Nat → Nat → Spot → Option Targets → Prop
  | .exitStmt, depth, base, k, some t => JumpsTo (stmtCode link .exitStmt depth base) k t.exit
  | .continueStmt, depth, base, k, some t =>
    ∃ p, JumpsTo (stmtCode link .continueStmt depth base) k p ∧
      (Falls p t.finish ∨ t.restart = true ∧ p = t.start)
  | .ifStmt _ thenBranch elsifBranches elseBranch, depth, base, k, t => ∀ s,
    stmtsRight link thenBranch depth base (k.arm s) t ∧
      elsifsRight link elsifBranches depth (base + stmtsLocals thenBranch) (k.arm s) t
        (match elseBranch with
          | some stmts => fun k' => stmtsRight link stmts depth
              (base + stmtsLocals thenBranch + elsifsLocals elsifBranches) k' t
          | none => fun _ => True)
  | .forStmt _ varOffset _ stop step body, depth, base, k, _ =>
    (forLoop link varOffset stop step (stmtsCode link body (depth + 1) base)).right false
      (stmtsRight link body (depth + 1) base) k
  | .whileStmt condition body, depth, base, k, _ =>
    (whileLoop link condition (stmtsCode link body (depth + 1) base)).right true
      (stmtsRight link body (depth + 1) base) k
  | .repeatStmt body untilCond, depth, base, k, _ =>
    (repeatLoop link untilCond (stmtsCode link body (depth + 1) base)).right false
      (stmtsRight link body (depth + 1) base) k
  | .caseStmt _ branches elseBranch, depth, base, k, t =>
    branchesRight link branches depth (base + 1) k t
      (match elseBranch with
        | some stmts => fun k' =>
            stmtsRight link stmts depth (base + 1 + branchesLocals branches) k' t
        | none => fun _ => True)
  | .exitStmt, _, _, _, none => True
  | .continueStmt, _, _, _, none => True
  | .assignment .., _, _, _, _ => True
  | .returnStmt _, _, _, _, _ => True
  | .callStmt .., _, _, _, _ => True
  | .empty, _, _, _, _ => True
/-- The statements of a list that leads to `k`. -/
def stmtsRight (link : String → Bool → Nat) :
    List TypedStatement → Nat → Nat → Spot → Option Targets → Prop
  | [], _, _, _, _ => True
  | stmt :: rest, depth, base, k, t =>
    stmtRight link stmt depth base
      (k.before (stmtsCode link rest depth (base + stmtLocals stmt))) t ∧
      stmtsRight link rest depth (base + stmtLocals stmt) k t
/-- The ELSIF branches in an arm that ends at `k`, with `els` for the ELSE branch. -/
def elsifsRight (link : String → Bool → Nat) :
    List (TypedExpr × List TypedStatement) → Nat → Nat → Spot → Option Targets →
      (Spot → Prop) → Prop
  | [], _, _, k, _, els => els k
  | (_, stmts) :: rest, depth, base, k, t, els => ∀ s,
    stmtsRight link stmts depth base (k.arm s) t ∧
      elsifsRight link rest depth (base + stmtsLocals stmts) (k.arm s) t els
/-- The CASE branches that lead to `k`, with `els` for the ELSE branch. -/
def branchesRight (link : String → Bool → Nat) :
    List (List Int × List TypedStatement) → Nat → Nat → Spot → Option Targets → (Spot → Prop) → Prop
  | [], _, _, k, _, els => els k
  | ([], _) :: rest, depth, base, k, t, els => branchesRight link rest depth base k t els
  | (_ :: _, stmts) :: rest, depth, base, k, t, els => ∀ s,
    stmtsRight link stmts depth base (k.arm s) t ∧
      branchesRight link rest depth (base + stmtsLocals stmts) (k.arm s) t els
end

/-- Every EXIT and CONTINUE of a compilation unit leads where it has to. -/
def JumpsRight (typed : TypedUnit) : Prop :=
  ∀ pou ∈ typed.units, stmtsRight typed.emitter.link pou.body 0 0 ⟨[], []⟩ none

/-! ## Which jumps do -/

/-- Where a statement stands: in how many loops of the function, directly in which kind of loop, in
how many conditionals of that loop, and whether nothing of the iteration is left to run after the
innermost of these. -/
structure Nest where
  loops : Nat
  inWhile : Bool
  conds : Nat
  last : Bool
deriving DecidableEq, Repr

/-- The body of a function. -/
def Nest.top : Nest := ⟨0, false, 0, false⟩

/-- The body of a loop. -/
def Nest.loop (n : Nest) (inWhile : Bool) : Nest := ⟨n.loops + 1, inWhile, 0, false⟩

/-- An arm of a conditional; `tail` says that nothing follows the conditional. -/
def Nest.arm (n : Nest) (tail : Bool) : Nest :=
  { n with conds := n.conds + 1, last := tail && (n.conds == 0 || n.last) }

/-- Statements without code. -/
def TypedStatement.isEmpty : TypedStatement → Bool
  | .empty => true
  | _ => false

mutual
/-- The jumps of a statement stand where they lead as they have to; `tail` says that no code follows
the statement in its list. -/
def stmtFits : TypedStatement → Nest → Bool → Bool
  | .exitStmt, n, _ => n.loops == 0 || n.conds + 1 == n.loops
  | .continueStmt, n, _ => n.loops == 0 || (if n.conds = 0 then n.inWhile else n.last)
  | .ifStmt _ thenBranch elsifBranches elseBranch, n, tail =>
    stmtsFit thenBranch (n.arm tail) true &&
      elsifsFit elsifBranches (n.arm tail) true
        (match elseBranch with
          | some stmts => stmtsFit stmts
          | none => fun _ _ => true)
  | .forStmt _ _ _ _ _ body, n, _ => stmtsFit body (n.loop false) true
  | .whileStmt _ body, n, _ => stmtsFit body (n.loop true) true
  | .repeatStmt body _, n, _ => stmtsFit body (n.loop false) true
  | .caseStmt _ branches elseBranch, n, tail =>
    branchesFit branches n tail
      (match elseBranch with
        | some stmts => stmtsFit stmts
        | none => fun _ _ => true)
  | .assignment .., _, _ => true
  | .returnStmt _, _, _ => true
  | .callStmt .., _, _ => true
  | .empty, _, _ => true
/-- The jumps of the statements of a list. -/
def stmtsFit : List TypedStatement → Nest → Bool → Bool
  | [], _, _ => true
  | stmt :: rest, n, tail =>
    stmtFits stmt n (tail && rest.all TypedStatement.isEmpty) && stmtsFit rest n tail
/-- The jumps of ELSIF branches, with `els` for the ELSE branch. -/
def elsifsFit : List (TypedExpr × List TypedStatement) → Nest → Bool → (Nest → Bool → Bool) → Bool
  | [], n, tail, els => els n tail
  | (_, stmts) :: rest, n, tail, els =>
    stmtsFit stmts (n.arm tail) true && elsifsFit rest (n.arm tail) true els
/-- The jumps of CASE branches, with `els` for the ELSE branch. -/
def branchesFit : List (List Int × List TypedStatement) → Nest → Bool → (Nest → Bool → Bool) → Bool
  | [], n, tail, els => els n tail
  | ([], _) :: rest, n, tail, els => branchesFit rest n tail els
  | (_ :: _, stmts) :: rest, n, tail, els =>
    stmtsFit stmts (n.arm tail) true && branchesFit rest (n.arm tail) true els
end

/-! ## Points and nestings -/

section Spots

variable {link : String → Bool → Nat} {k p : Spot} {n : Nest} {tail : Bool} {t : Targets}
  {len : Nat}

/-- Running a branch. -/
theorem jumpsTo_br (d : Nat) (k p : Spot) :
    JumpsTo (ops [.br d]) k p ↔ ∃ entry, branch d k.levels = some (p, entry) := by
  constructor
  · intro h
    obtain ⟨s', hs⟩ := h bareEnv ⟨[], [], .zeroed 0⟩
    cases hs with
    | op hstep => cases hstep
    | br hstep hbranch =>
      cases hstep
      exact ⟨_, hbranch⟩
  · rintro ⟨entry, hbranch⟩ env s
    exact ⟨_, .br rfl hbranch⟩

/-- The targets of a loop. -/
structure Targets.Ok (t : Targets) : Prop where
  loop : ∃ l blk, t.finish.levels = l :: blk :: t.exit.levels ∧ l.again = some t.start.code ∧
    blk.again = none ∧ blk.after = t.exit.code
  start : t.start.levels = t.finish.levels
  finish : t.finish.code ≠ []
  shorter : t.finish.code.length ≤ t.start.code.length
  outer : ∀ l ls body, t.exit.levels = l :: ls → l.again = some body →
    t.exit.code.length < body.length

/-- The point `k` lies in the loop with the targets `t` as `n` says, after code of the length `len`;
`tail` says that nothing is left to run in the innermost construct. -/
structure Within (n : Nest) (tail : Bool) (k : Spot) (t : Targets) (len : Nat) : Prop where
  restart : t.restart = n.inWhile
  arms : ∃ arms, k.levels = arms ++ t.finish.levels ∧ arms.length = n.conds ∧
    ∀ l ∈ arms, l.again = none
  ends : Falls k t.finish ↔ (tail && (n.conds == 0 || n.last)) = true
  leave : n.conds ≠ 0 → ∀ p entry, branch 0 k.levels = some (p, entry) →
    p ≠ t.start ∧ (Falls p t.finish ↔ n.last = true)
  room : n.conds = 0 → t.finish.code.length ≤ k.code.length ∧
    len + k.code.length ≤ t.start.code.length

/-- The point `k` lies in the function as `n` says. -/
def Located (n : Nest) (tail : Bool) (k : Spot) (t : Option Targets) (len : Nat) : Prop :=
  match t with
  | none => n.loops = 0 ∧ ∀ l ∈ k.levels, l.again = none
  | some t => 0 < n.loops ∧ t.Ok ∧ Within n tail k t len

theorem Within.length_levels (h : Within n tail k t len) :
    k.levels.length = n.conds + t.finish.levels.length := by
  obtain ⟨arms, hlevels, hlength, -⟩ := h.arms
  rw [hlevels, List.length_append, hlength]

/-- An EXIT leads to the end of its loop exactly when it crosses its conditionals and its loop. -/
theorem Within.exit (h : Within n tail k t len) (ht : t.Ok) (d : Nat) :
    (∃ entry, branch d k.levels = some (t.exit, entry)) ↔ n.conds + 1 = d := by
  obtain ⟨l, blk, hframe, hagain, hblk, hafter⟩ := ht.loop
  obtain ⟨arms, hlevels, hlength, -⟩ := h.arms
  have htotal := h.length_levels
  have hinner : t.finish.levels.length = t.exit.levels.length + 2 := by
    rw [hframe, List.length_cons, List.length_cons]
  have hsplit : k.levels = (arms ++ [l, blk]) ++ t.exit.levels := by
    rw [hlevels, hframe, List.append_assoc]
    rfl
  constructor
  · rintro ⟨entry, hbranch⟩
    obtain ⟨hlt, hlow, hhigh⟩ := branch_levels hbranch
    -- beyond the loop, only the start of an outer loop has as many constructs around it
    by_contra hd
    have hbeyond : d = n.conds + 2 := by omega
    have hcount : (arms ++ [l, blk]).length = d := by
      rw [List.length_append, hlength, hbeyond]
      rfl
    have hzero := branch_append (arms ++ [l, blk]) t.exit.levels 0
    rw [Nat.add_zero, hcount, ← hsplit, hbranch] at hzero
    cases houter : t.exit.levels with
    | nil =>
      rw [houter] at hzero
      cases hzero
    | cons o os =>
      rw [houter, branch_zero] at hzero
      obtain ⟨htarget, -⟩ := Prod.mk.inj (Option.some.inj hzero)
      rw [Level.target] at htarget
      cases ho : o.again with
      | none =>
        rw [ho] at htarget
        have hfew : t.exit.levels.length = os.length :=
          congrArg (fun q => q.levels.length) htarget
        rw [houter, List.length_cons] at hfew
        omega
      | some body =>
        rw [ho] at htarget
        have hcode : t.exit.code.length = body.length := congrArg (fun q => q.code.length) htarget
        have hshort := ht.outer o os body houter ho
        omega
  · rintro rfl
    have hone := branch_append arms (l :: blk :: t.exit.levels) 1
    rw [hlength, ← hframe, ← hlevels, hframe, branch_succ, branch_zero, Level.target, hblk,
      hafter] at hone
    exact ⟨_, hone⟩

/-- A CONTINUE leads to the next iteration of its loop exactly when it stands directly in a WHILE,
or in a conditional at the end of the body. -/
theorem Within.continue_iff (h : Within n tail k t len) (ht : t.Ok) (hlen : 0 < len) :
    (∃ p, (∃ entry, branch 0 k.levels = some (p, entry)) ∧
      (Falls p t.finish ∨ t.restart = true ∧ p = t.start)) ↔
        (if n.conds = 0 then n.inWhile else n.last) = true := by
  obtain ⟨l, blk, hframe, hagain, -, -⟩ := ht.loop
  obtain ⟨arms, hlevels, hlength, -⟩ := h.arms
  by_cases hconds : n.conds = 0
  · -- directly in the loop, the innermost label is that of its start
    have harms : arms = [] := List.eq_nil_of_length_eq_zero (hlength.trans hconds)
    have hstart : t.start = ⟨t.start.code, l :: blk :: t.exit.levels⟩ := by
      rw [← hframe, ← ht.start]
    have hbranch : branch 0 k.levels = some (t.start, l.entry) := by
      rw [hlevels, harms, List.nil_append, hframe, branch_zero, Level.target, hagain]
      show some ((⟨t.start.code, l :: blk :: t.exit.levels⟩ : Spot), l.entry) = _
      rw [← hstart]
    obtain ⟨hshort, hlong⟩ := h.room hconds
    rw [if_pos hconds, ← h.restart]
    constructor
    · rintro ⟨p, ⟨entry, hp⟩, hleads⟩
      rw [hbranch] at hp
      obtain ⟨rfl, -⟩ := Prod.mk.inj (Option.some.inj hp)
      rcases hleads with hfalls | ⟨hrestart, -⟩
      · have hcode : t.start.code ≠ [] := by
          intro hnil
          rw [hnil, List.length_nil] at hlong
          omega
        have hsame : t.start.code.length = t.finish.code.length :=
          congrArg (fun q => q.code.length) (hfalls.of_code hcode)
        omega
      · exact hrestart
    · intro hrestart
      exact ⟨_, ⟨_, hbranch⟩, .inr ⟨hrestart, rfl⟩⟩
  · rw [if_neg hconds]
    -- in a conditional, the innermost label is the end of its arm
    obtain ⟨arm, rest, rfl⟩ : ∃ arm rest, arms = arm :: rest := by
      apply List.exists_cons_of_ne_nil
      rintro rfl
      exact hconds hlength.symm
    have hbranch : branch 0 k.levels = some (arm.target (rest ++ t.finish.levels), arm.entry) := by
      rw [hlevels, List.cons_append, branch_zero]
    obtain ⟨hne, hfalls⟩ := h.leave hconds _ _ hbranch
    constructor
    · rintro ⟨p, ⟨entry, hp⟩, hleads⟩
      rw [hbranch] at hp
      obtain ⟨rfl, -⟩ := Prod.mk.inj (Option.some.inj hp)
      rcases hleads with hf | ⟨-, hstart⟩
      · exact hfalls.1 hf
      · exact absurd hstart hne
    · intro hlast
      exact ⟨_, ⟨_, hbranch⟩, .inl (hfalls.2 hlast)⟩

/-! ### Moving the point -/

/-- Before code that follows other code. -/
theorem Within.before (h : Within n tail k t len) (code : PlcCode) {len' : Nat}
    (hlen : len' + (strip code).length ≤ len) :
    Within n (tail && (strip code).isEmpty) (k.before code) t len' where
  restart := h.restart
  arms := h.arms
  leave := h.leave
  ends := by
    cases hcode : strip code with
    | nil =>
      have hsame : k.before code = k := by rw [Spot.before, hcode, List.nil_append]
      rw [hsame, h.ends]
      simp
    | cons c cs =>
      rw [List.isEmpty_cons, Bool.and_false, Bool.false_and]
      refine ⟨?_, fun hfalse => by cases hfalse⟩
      intro hfalls
      have hne : (k.before code).code ≠ [] := by simp [Spot.before, hcode]
      have hsame := hfalls.of_code hne
      have hlevels : k.levels.length = t.finish.levels.length :=
        congrArg (fun q => q.levels.length) hsame
      have hcount : (strip code).length + k.code.length = t.finish.code.length := by
        rw [← hsame, Spot.before, List.length_append]
      have htotal := h.length_levels
      obtain ⟨hroom, -⟩ := h.room (by omega)
      rw [hcode, List.length_cons] at hcount
      omega
  room := by
    intro hconds
    obtain ⟨hshort, hlong⟩ := h.room hconds
    have hcount : (k.before code).code.length = (strip code).length + k.code.length :=
      List.length_append
    omega

/-- In an arm of a conditional before the point. -/
theorem Within.arm (h : Within n tail k t len) (ht : t.Ok) (hlen : 0 < len) (s : State)
    (len' : Nat) : Within (n.arm tail) true (k.arm s) t len' := by
  obtain ⟨l, blk, hframe, -⟩ := ht.loop
  obtain ⟨arms, hlevels, hlength, harms⟩ := h.arms
  have htotal := h.length_levels
  have hfalls : Falls (k.arm s) t.finish ↔ Falls k t.finish := by
    constructor
    · intro hf
      generalize hp : k.arm s = p at hf
      cases hf with
      | refl =>
        have hmore : k.levels.length + 1 = t.finish.levels.length :=
          congrArg (fun q => q.levels.length) hp
        omega
      | fall hf =>
        cases hp
        exact hf
    · exact fun hf => .fall hf
  refine ⟨h.restart, ⟨⟨none, k.code, s⟩ :: arms, ?_, ?_, ?_⟩, ?_, ?_, fun hzero => ?_⟩
  · show _ :: k.levels = _
    rw [hlevels]
    rfl
  · exact congrArg (· + 1) hlength
  · intro l' hl'
    rcases List.mem_cons.1 hl' with rfl | hl'
    · rfl
    · exact harms l' hl'
  · rw [hfalls, h.ends]
    simp [Nest.arm]
  · intro _ p entry hp
    obtain ⟨rfl, -⟩ := Prod.mk.inj (Option.some.inj hp)
    refine ⟨?_, h.ends⟩
    intro hstart
    have hlevels' : k.levels.length = t.finish.levels.length := by
      rw [← ht.start, ← hstart]
      rfl
    obtain ⟨-, hlong⟩ := h.room (by omega)
    have hcode : k.code.length = t.start.code.length := congrArg (fun q => q.code.length) hstart
    omega
  · exact absurd hzero (Nat.succ_ne_zero _)

theorem Located.before {t : Option Targets} (h : Located n tail k t len) (code : PlcCode)
    {len' : Nat} (hlen : len' + (strip code).length ≤ len) :
    Located n (tail && (strip code).isEmpty) (k.before code) t len' := by
  cases t with
  | none => exact h
  | some t => exact ⟨h.1, h.2.1, h.2.2.before code hlen⟩

theorem Located.arm {t : Option Targets} (h : Located n tail k t len) (hlen : 0 < len) (s : State)
    (len' : Nat) : Located (n.arm tail) true (k.arm s) t len' := by
  cases t with
  | none =>
    refine ⟨h.1, ?_⟩
    intro l hl
    rcases List.mem_cons.1 hl with rfl | hl
    · rfl
    · exact h.2 l hl
  | some t => exact ⟨h.1, h.2.1, h.2.2.arm h.2.1 hlen s len'⟩

theorem Located.mono {t : Option Targets} (h : Located n tail k t len) {len' : Nat}
    (hlen : len' ≤ len) : Located n tail k t len' := by
  cases t with
  | none => exact h
  | some t =>
    obtain ⟨hpos, hok, hin⟩ := h
    refine ⟨hpos, hok, hin.restart, hin.arms, hin.ends, hin.leave, ?_⟩
    intro hconds
    obtain ⟨hshort, hlong⟩ := hin.room hconds
    exact ⟨hshort, by omega⟩

/-- Code before the point in a loop is shorter than the loop. -/
theorem Located.shorter {t : Option Targets} (h : Located n tail k t len) (hlen : 0 < len)
    (l : Level Op Bounds State) (ls : List (Level Op Bounds State)) (body : PlcCode)
    (hl : k.levels = l :: ls) (hbody : l.again = some body) : k.code.length < body.length := by
  cases t with
  | none =>
    have hnone := h.2 l (by simp [hl])
    rw [hnone] at hbody
    cases hbody
  | some t =>
    obtain ⟨-, hok, hin⟩ := h
    obtain ⟨arms, hlevels, hlength, harms⟩ := hin.arms
    cases arms with
    | cons a as =>
      rw [hl, List.cons_append] at hlevels
      obtain ⟨rfl, -⟩ := List.cons.inj hlevels
      rw [harms l (List.mem_cons_self ..)] at hbody
      cases hbody
    | nil =>
      obtain ⟨loop, blk, hframe, hagain, -, -⟩ := hok.loop
      rw [hl, List.nil_append, hframe] at hlevels
      obtain ⟨rfl, -⟩ := List.cons.inj hlevels
      rw [hagain] at hbody
      obtain rfl := Option.some.inj hbody
      obtain ⟨-, hlong⟩ := hin.room hlength.symm
      omega

/-- At the end of the body of a loop before the point. -/
theorem Located.loop {t : Option Targets} (h : Located n tail k t len) (hlen : 0 < len)
    (c : LoopCode) (hrest : strip c.rest ≠ []) (restart : Bool) (s : State) :
    Located (n.loop restart) true (c.inside (strip c.rest) k s) (some (c.targets restart k s))
      (strip c.body).length := by
  have hall : c.all = strip c.test ++ (strip c.body ++ strip c.rest) := by
    rw [LoopCode.all, LoopCode.source, strip_append, strip_append]
  have hlength : c.all.length =
      (strip c.test).length + ((strip c.body).length + (strip c.rest).length) := by
    rw [hall, List.length_append, List.length_append]
  refine ⟨Nat.succ_pos _, ⟨⟨_, _, rfl, rfl, rfl, rfl⟩, rfl, hrest, ?_, h.shorter hlen⟩,
    ⟨rfl, ⟨[], rfl, rfl, fun l hl => by cases hl⟩, ?_, fun hzero => absurd rfl hzero, ?_⟩⟩
  · show (strip c.rest).length ≤ c.all.length
    omega
  · exact ⟨fun _ => rfl, fun _ => .refl _⟩
  · intro _
    refine ⟨Nat.le_refl _, ?_⟩
    show (strip c.body).length + (strip c.rest).length ≤ c.all.length
    omega

end Spots

/-! ## The statement tree -/

section Trees

variable (link : String → Bool → Nat)

@[simp] theorem ops_eq_nil (os : List Op) : ops os = [] ↔ os = [] := List.map_eq_nil_iff

@[simp] theorem strip_condCode_ne_nil (thn : PlcCode) (els : Option PlcCode) :
    (condCode thn els).strip ≠ [] := by
  cases els <;> exact List.cons_ne_nil _ _

/-- Only the empty statement has no code. -/
theorem isEmpty_stmtCode (stmt : TypedStatement) (depth base : Nat) :
    (strip (stmtCode link stmt depth base)).isEmpty = stmt.isEmpty := by
  cases stmt with
  | ifStmt _ _ _ elseBranch => cases elseBranch <;> simp [stmtCode, TypedStatement.isEmpty]
  | caseStmt _ _ elseBranch => cases elseBranch <;> simp [stmtCode, TypedStatement.isEmpty]
  | forStmt => simp [stmtCode, forCode, TypedStatement.isEmpty]
  | whileStmt => simp [stmtCode, whileCode, Code.strip, TypedStatement.isEmpty]
  | repeatStmt => simp [stmtCode, repeatCode, Code.strip, TypedStatement.isEmpty]
  | exitStmt | continueStmt | empty => rfl
  | assignment | returnStmt | callStmt => simp [stmtCode, TypedStatement.isEmpty]

theorem isEmpty_stmtsCode : ∀ (stmts : List TypedStatement) (depth base : Nat),
    (strip (stmtsCode link stmts depth base)).isEmpty = stmts.all TypedStatement.isEmpty
  | [], _, _ => rfl
  | stmt :: rest, depth, base => by
    have hrest := isEmpty_stmtsCode rest depth (base + stmtLocals stmt)
    have hstmt := isEmpty_stmtCode link stmt depth base
    rw [stmtsCode, strip_append, List.all_cons, ← hrest, ← hstmt]
    cases strip (stmtCode link stmt depth base) <;> rfl

/-- Statements other than the empty one have code. -/
theorem length_stmtCode_pos (stmt : TypedStatement) (depth base : Nat)
    (h : stmt.isEmpty = false) : 0 < (strip (stmtCode link stmt depth base)).length := by
  rw [← isEmpty_stmtCode link stmt depth base] at h
  exact List.length_pos_iff.2 (List.isEmpty_eq_false_iff.1 h)

theorem branchesCode_invalid : ∀ (branches : List (List Int × List TypedStatement))
    (depth base sel : Nat) (els : Option PlcCode), validBranches branches = 0 →
    branchesCode link branches depth base sel els = els
  | [], _, _, _, _, _ => rfl
  | ([], _) :: rest, depth, base, sel, els, h => branchesCode_invalid rest depth base sel els h
  | (v :: vs, stmts) :: rest, _, _, _, _, h => by
    rw [validBranches_cons] at h
    cases h

/-- A property that is the same for all states. -/
theorem forall_state_iff {P : State → Prop} {Q : Prop} (h : ∀ s, P s ↔ Q) : (∀ s, P s) ↔ Q :=
  ⟨fun hp => (h ⟨[], [], .zeroed 0⟩).1 (hp _), fun hq s => (h s).2 hq⟩

/-- The jumps in the body of a loop. -/
theorem LoopCode.right_iff {n : Nest} {tail : Bool} {k : Spot} {t : Option Targets} {len : Nat}
    (h : Located n tail k t len) (hlen : 0 < len) (c : LoopCode) (hrest : strip c.rest ≠ [])
    (restart : Bool) {body : Spot → Option Targets → Prop} {fits : Bool}
    (hbody : ∀ k' t', Located (n.loop restart) true k' t' (strip c.body).length →
      (body k' t' ↔ fits = true)) : c.right restart body k ↔ fits = true :=
  forall_state_iff fun s => hbody _ _ (h.loop hlen c hrest restart s)

mutual
theorem stmtRight_iff : ∀ (stmt : TypedStatement) (n : Nest) (tail : Bool) (k : Spot)
    (t : Option Targets) (base : Nat),
    Located n tail k t (strip (stmtCode link stmt n.loops base)).length →
    (stmtRight link stmt n.loops base k t ↔ stmtFits stmt n tail = true)
  | .assignment .., _, _, _, _, _, _ => ⟨fun _ => rfl, fun _ => trivial⟩
  | .ifStmt condition thenBranch elsifBranches none, n, tail, k, t, base, h => by
    have hlen := length_stmtCode_pos link (.ifStmt condition thenBranch elsifBranches none)
      n.loops base rfl
    refine forall_state_iff fun s => ?_
    rw [stmtFits, Bool.and_eq_true]
    exact and_congr (stmtsRight_iff thenBranch (n.arm tail) true _ t base (h.arm hlen s _))
      (elsifsRight_iff elsifBranches (n.arm tail) true _ t _ _ _ 0 1 (h.arm hlen s 1) (by decide)
        fun _ _ _ _ _ => ⟨fun _ => rfl, fun _ => trivial⟩)
  | .ifStmt condition thenBranch elsifBranches (some stmts), n, tail, k, t, base, h => by
    have hlen := length_stmtCode_pos link (.ifStmt condition thenBranch elsifBranches (some stmts))
      n.loops base rfl
    refine forall_state_iff fun s => ?_
    rw [stmtFits, Bool.and_eq_true]
    refine and_congr (stmtsRight_iff thenBranch (n.arm tail) true _ t base (h.arm hlen s _))
      (elsifsRight_iff elsifBranches (n.arm tail) true _ t _ _ _
        (strip (stmtsCode link stmts n.loops
          (base + stmtsLocals thenBranch + elsifsLocals elsifBranches))).length _
        (h.arm hlen s _) (Nat.lt_succ_self _) ?_)
    intro n' tail' k' hn hk
    have hels := stmtsRight_iff stmts n' tail' k' t
      (base + stmtsLocals thenBranch + elsifsLocals elsifBranches)
    rw [hn] at hels
    exact hels hk
  | .forStmt name varOffset start stop step body, n, tail, k, t, base, h => by
    have hlen := length_stmtCode_pos link (.forStmt name varOffset start stop step body)
      n.loops base rfl
    -- CONTINUE in a FOR has to reach the step at the end of the pass
    exact LoopCode.right_iff h hlen _ (by simp [forLoop]) false
      fun k' t' hk => stmtsRight_iff body (n.loop false) true k' t' base hk
  | .whileStmt condition body, n, tail, k, t, base, h => by
    have hlen := length_stmtCode_pos link (.whileStmt condition body) n.loops base rfl
    -- CONTINUE in a WHILE may as well restart the pass, at the condition
    exact LoopCode.right_iff h hlen _ (by simp [whileLoop]) true
      fun k' t' hk => stmtsRight_iff body (n.loop true) true k' t' base hk
  | .repeatStmt body untilCond, n, tail, k, t, base, h => by
    have hlen := length_stmtCode_pos link (.repeatStmt body untilCond) n.loops base rfl
    -- CONTINUE in a REPEAT has to reach the condition at the end of the pass
    exact LoopCode.right_iff h hlen _ (by simp [repeatLoop]) false
      fun k' t' hk => stmtsRight_iff body (n.loop false) true k' t' base hk
  | .caseStmt selector branches none, n, tail, k, t, base, h => by
    have hlen := length_stmtCode_pos link (.caseStmt selector branches none) n.loops base rfl
    exact branchesRight_iff branches n tail k t _ _ _ 0 _ h hlen (fun _ => Nat.zero_le _)
      fun _ _ _ _ _ => ⟨fun _ => rfl, fun _ => trivial⟩
  | .caseStmt selector branches (some stmts), n, tail, k, t, base, h => by
    have hlen := length_stmtCode_pos link (.caseStmt selector branches (some stmts)) n.loops
      base rfl
    refine branchesRight_iff branches n tail k t _ _ _
      (strip (stmtsCode link stmts n.loops (base + 1 + branchesLocals branches))).length _ h hlen
      ?_ ?_
    · intro hvalid
      rw [stmtCode, branchesCode_invalid link branches _ _ _ _ hvalid]
      simp only [Option.getD_some, strip_append, List.length_append]
      omega
    · intro n' tail' k' hn hk
      have hels := stmtsRight_iff stmts n' tail' k' t (base + 1 + branchesLocals branches)
      rw [hn] at hels
      exact hels hk
  | .exitStmt, n, _, _, none, _, h => by
    rw [stmtFits, h.1]
    exact ⟨fun _ => rfl, fun _ => trivial⟩
  | .exitStmt, n, tail, k, some t, _, h => by
    have hloops := h.1
    -- EXIT counts the loops around it, but the label also has to count the arms
    have hexit := (jumpsTo_br n.loops k t.exit).trans (h.2.2.exit h.2.1 n.loops)
    rw [stmtFits, Bool.or_eq_true, beq_iff_eq, beq_iff_eq]
    exact hexit.trans ⟨fun he => .inr he, fun he => he.resolve_left (by omega)⟩
  | .continueStmt, n, _, _, none, _, h => by
    rw [stmtFits, h.1]
    exact ⟨fun _ => rfl, fun _ => trivial⟩
  | .continueStmt, n, tail, k, some t, _, h => by
    have hloops := h.1
    have hcontinue := h.2.2.continue_iff h.2.1 (by show 0 < 1; decide)
    rw [stmtFits, Bool.or_eq_true, beq_iff_eq, stmtRight]
    have hjump : (∃ p, JumpsTo (ops [.br 0]) k p ∧
        (Falls p t.finish ∨ t.restart = true ∧ p = t.start)) ↔ _ :=
      (exists_congr fun p => and_congr_left fun _ => jumpsTo_br 0 k p).trans hcontinue
    exact hjump.trans ⟨fun he => .inr he, fun he => he.resolve_left (by omega)⟩
  | .returnStmt _, _, _, _, _, _, _ => ⟨fun _ => rfl, fun _ => trivial⟩
  | .callStmt .., _, _, _, _, _, _ => ⟨fun _ => rfl, fun _ => trivial⟩
  | .empty, _, _, _, _, _, _ => ⟨fun _ => rfl, fun _ => trivial⟩
theorem stmtsRight_iff : ∀ (stmts : List TypedStatement) (n : Nest) (tail : Bool) (k : Spot)
    (t : Option Targets) (base : Nat),
    Located n tail k t (strip (stmtsCode link stmts n.loops base)).length →
    (stmtsRight link stmts n.loops base k t ↔ stmtsFit stmts n tail = true)
  | [], _, _, _, _, _, _ => ⟨fun _ => rfl, fun _ => trivial⟩
  | stmt :: rest, n, tail, k, t, base, h => by
    have hlength : (strip (stmtsCode link (stmt :: rest) n.loops base)).length =
        (strip (stmtCode link stmt n.loops base)).length +
          (strip (stmtsCode link rest n.loops (base + stmtLocals stmt))).length := by
      rw [stmtsCode, strip_append, List.length_append]
    have hstmt := stmtRight_iff stmt n _ _ t base
      (h.before (stmtsCode link rest n.loops (base + stmtLocals stmt)) hlength.ge)
    have hrest := stmtsRight_iff rest n tail k t (base + stmtLocals stmt) (h.mono (by omega))
    rw [isEmpty_stmtsCode] at hstmt
    rw [stmtsFit, Bool.and_eq_true]
    exact and_congr hstmt hrest
theorem elsifsRight_iff : ∀ (branches : List (TypedExpr × List TypedStatement)) (n : Nest)
    (tail : Bool) (k : Spot) (t : Option Targets) (base : Nat) (els : Spot → Prop)
    (fits : Nest → Bool → Bool) (lenEls len : Nat), Located n tail k t len → lenEls < len →
    (∀ n' tail' k', n'.loops = n.loops → Located n' tail' k' t lenEls →
      (els k' ↔ fits n' tail' = true)) →
    (elsifsRight link branches n.loops base k t els ↔ elsifsFit branches n tail fits = true)
  | [], n, tail, k, _, _, _, _, _, _, h, hlen, hels => hels n tail k rfl (h.mono (by omega))
  | (_, stmts) :: rest, n, tail, k, t, base, els, fits, lenEls, len, h, hlen, hels => by
    refine forall_state_iff fun s => ?_
    rw [elsifsFit, Bool.and_eq_true]
    exact and_congr
      (stmtsRight_iff stmts (n.arm tail) true _ t base (h.arm (by omega) s _))
      (elsifsRight_iff rest (n.arm tail) true _ t _ els fits lenEls (lenEls + 1)
        (h.arm (by omega) s _) (Nat.lt_succ_self _) hels)
theorem branchesRight_iff : ∀ (branches : List (List Int × List TypedStatement)) (n : Nest)
    (tail : Bool) (k : Spot) (t : Option Targets) (base : Nat) (els : Spot → Prop)
    (fits : Nest → Bool → Bool) (lenEls len : Nat), Located n tail k t len → 0 < len →
    (validBranches branches = 0 → lenEls ≤ len) →
    (∀ n' tail' k', n'.loops = n.loops → Located n' tail' k' t lenEls →
      (els k' ↔ fits n' tail' = true)) →
    (branchesRight link branches n.loops base k t els ↔ branchesFit branches n tail fits = true)
  | [], n, tail, k, _, _, _, _, _, _, h, _, hle, hels => hels n tail k rfl (h.mono (hle rfl))
  | ([], _) :: rest, n, tail, k, t, base, els, fits, lenEls, len, h, hlen, hle, hels =>
    branchesRight_iff rest n tail k t base els fits lenEls len h hlen hle hels
  | (_ :: _, stmts) :: rest, n, tail, k, t, base, els, fits, lenEls, len, h, hlen, _, hels => by
    refine forall_state_iff fun s => ?_
    rw [branchesFit, Bool.and_eq_true]
    exact and_congr
      (stmtsRight_iff stmts (n.arm tail) true _ t base (h.arm hlen s _))
      (branchesRight_iff rest (n.arm tail) true _ t _ els fits lenEls (lenEls + 1)
        (h.arm hlen s _) (Nat.succ_pos _) (fun _ => Nat.le_succ _) hels)
end

end Trees

/-- The jumps of a compilation unit lead where they have to exactly when they stand where the
lowered branches lead there. -/
theorem jumpsRight_iff (typed : TypedUnit) :
    JumpsRight typed ↔ ∀ pou ∈ typed.units, stmtsFit pou.body .top true = true :=
  forall₂_congr fun pou _ => stmtsRight_iff typed.emitter.link pou.body .top true ⟨[], []⟩ none 0
    ⟨rfl, fun _ hl => by cases hl⟩

/-- An EXIT in a conditional of a loop: `WHILE x DO IF x THEN EXIT; END_IF; END_WHILE`. -/
def guardedExit : CompilationUnit :=
  ⟨[.program ⟨"Main", [⟨.var, false, [⟨"x", .bool, none⟩]⟩],
    [.whileStmt (.variable "x") [.ifStmt (.variable "x") [.exitStmt] [] none]]⟩]⟩

/-- The EXIT of `guardedExit` leads back to the start of its loop. -/
theorem jumpsRight_fails : ¬ ∀ (b : Build) (ast : CompilationUnit) (typed : TypedUnit),
    check b ast = .ok typed → JumpsRight typed := by
  intro h
  have hfits : (check .debug guardedExit).toOption.map
      (fun typed => typed.units.all fun pou => stmtsFit pou.body .top true) = some false := by
    decide
  cases hcheck : check .debug guardedExit with
  | error err =>
    rw [hcheck] at hfits
    cases hfits
  | ok typed =>
    rw [hcheck] at hfits
    have hright := h _ _ _ hcheck
    have hall : (typed.units.all fun pou => stmtsFit pou.body .top true) = true := by
      rw [List.all_eq_true]
      intro pou hpou
      exact (stmtsRight_iff typed.emitter.link pou.body .top true ⟨[], []⟩ none 0
        ⟨rfl, fun _ hl => by cases hl⟩).1 (hright pou hpou)
    rw [Except.toOption, Option.map_some, hall] at hfits
    cases hfits

end VirtualPlc.Compiler
