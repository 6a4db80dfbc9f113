import Mathlib.Data.List.Basic

/-!
# Operator precedence

A chain is a first operand and a list of operators, each with its right operand. A tree over the
chain is grouped when every operator has weaker operators neither on its left nor on its right, and
none of its own level on its right: stronger operators bind tighter and operators of one level
group to the left. Every chain has exactly one grouped tree (`grouped_iff_group`).

`Grouped.by_levels` is the induction that a cascade of left folds follows, one fold for each level.
-/

set_option autoImplicit false

namespace VirtualPlc.Parsing

/-- A first operand and the operators after it, each with its right operand. -/
structure Chain (α ω : Type) where
  first : α
  rest : List (ω × α)

/-- Trees of binary operators over operands. -/
inductive OpTree (α ω : Type) where
  | leaf (a : α)
  | node (left : OpTree α ω) (op : ω) (right : OpTree α ω)

section Trees

variable {α ω : Type}

/-- The operands of a chain, from left to right. -/
def Chain.operands (c : Chain α ω) : List α :=
  c.first :: c.rest.map Prod.snd

namespace OpTree

/-- The leftmost operand. -/
def first : OpTree α ω → α
  | .leaf a => a
  | .node l _ _ => l.first

/-- The operators from left to right, each with the operand after it. -/
def rest : OpTree α ω → List (ω × α)
  | .leaf _ => []
  | .node l o r => l.rest ++ (o, r.first) :: r.rest

/-- The chain that a tree stands over. -/
def chain (t : OpTree α ω) : Chain α ω := ⟨t.first, t.rest⟩

/-- The operands from left to right. -/
def leaves : OpTree α ω → List α
  | .leaf a => [a]
  | .node l _ r => l.leaves ++ r.leaves

theorem chain_operands (t : OpTree α ω) : t.chain.operands = t.leaves := by
  induction t with
  | leaf a => rfl
  | node l o r ihl ihr =>
    simp only [chain, Chain.operands, first, rest, leaves, List.map_append, List.map_cons]
      at ihl ihr ⊢
    rw [← ihl, ← ihr]
    rfl

/-- The number of operators. -/
def size : OpTree α ω → Nat
  | .leaf _ => 0
  | .node l _ r => l.size + r.size + 1

/-- The tree that takes each operator with its right operand in turn, grouped to the left. -/
def extend (t : OpTree α ω) (bs : List (ω × OpTree α ω)) : OpTree α ω :=
  bs.foldl (fun l b => .node l b.1 b.2) t

@[simp]
theorem extend_nil (t : OpTree α ω) : t.extend [] = t := rfl

@[simp]
theorem extend_concat (t : OpTree α ω) (bs : List (ω × OpTree α ω)) (o : ω) (r : OpTree α ω) :
    t.extend (bs ++ [(o, r)]) = .node (t.extend bs) o r := by
  simp [extend]

theorem leaves_extend (t : OpTree α ω) (bs : List (ω × OpTree α ω)) :
    (t.extend bs).leaves = t.leaves ++ bs.flatMap fun b => b.2.leaves := by
  induction bs generalizing t with
  | nil => simp
  | cons b bs ih =>
    show ((OpTree.node t b.1 b.2).extend bs).leaves = _
    rw [ih, leaves, List.append_assoc]
    rfl

/-- The operator at the root has at least the level `k`; an operand is above every level. -/
def Above (level : ω → Nat) (k : Nat) : OpTree α ω → Prop
  | .leaf _ => True
  | .node _ o _ => k ≤ level o

/-- Every operator stands over operators of its own level or stronger ones on its left, and over
stronger ones on its right. -/
def Grouped (level : ω → Nat) : OpTree α ω → Prop
  | .leaf _ => True
  | .node l o r => l.Grouped level ∧ r.Grouped level ∧ l.Above level (level o) ∧
      r.Above level (level o + 1)

theorem Above.mono {level : ω → Nat} {k k' : Nat} (hle : k' ≤ k) {t : OpTree α ω}
    (h : t.Above level k) : t.Above level k' := by
  cases t with
  | leaf a => trivial
  | node l o r => exact Nat.le_trans hle h

/-- Takes one more operator and operand at the right end: below the operators that are weaker. -/
def push (level : ω → Nat) (o : ω) (b : α) : OpTree α ω → OpTree α ω
  | .leaf a => .node (.leaf a) o (.leaf b)
  | .node l p r =>
    if level p < level o then .node l p (r.push level o b) else .node (.node l p r) o (.leaf b)

/-- Takes operators and operands one after the other. -/
def pushAll (level : ω → Nat) : OpTree α ω → List (ω × α) → OpTree α ω
  | t, [] => t
  | t, b :: bs => (t.push level b.1 b.2).pushAll level bs

end OpTree

/-- The tree of a chain. -/
def Chain.group (level : ω → Nat) (c : Chain α ω) : OpTree α ω :=
  OpTree.pushAll level (.leaf c.first) c.rest

end Trees

/-! ## The grouped tree of a chain -/

section Grouping

variable {α ω : Type} {level : ω → Nat}

namespace OpTree

theorem push_first (o : ω) (b : α) (t : OpTree α ω) : (t.push level o b).first = t.first := by
  induction t with
  | leaf a => rfl
  | node l p r _ _ =>
    rw [push]
    split <;> rfl

theorem push_rest (o : ω) (b : α) (t : OpTree α ω) :
    (t.push level o b).rest = t.rest ++ [(o, b)] := by
  induction t with
  | leaf a => rfl
  | node l p r _ ihr =>
    rw [push]
    split
    · simp [rest, push_first, ihr]
    · simp [rest, first]

theorem push_above {k : Nat} {o : ω} (b : α) (hk : k ≤ level o) (t : OpTree α ω)
    (h : t.Above level k) : (t.push level o b).Above level k := by
  cases t with
  | leaf a => exact hk
  | node l p r =>
    rw [push]
    split
    · exact h
    · exact hk

theorem push_grouped (o : ω) (b : α) (t : OpTree α ω) (h : t.Grouped level) :
    (t.push level o b).Grouped level := by
  induction t with
  | leaf a => exact ⟨trivial, trivial, trivial, trivial⟩
  | node l p r _ ihr =>
    have hl := h.1
    have hr := h.2.1
    rw [push]
    split
    · -- the new operator is stronger than the root and goes into the right part
      rename_i hlt
      exact ⟨hl, ihr hr, h.2.2.1, push_above b hlt r h.2.2.2⟩
    · rename_i hlt
      exact ⟨h, trivial, Nat.le_of_not_lt hlt, trivial⟩

theorem pushAll_chain (bs : List (ω × α)) : ∀ t : OpTree α ω,
    (t.pushAll level bs).chain = ⟨t.first, t.rest ++ bs⟩ := by
  induction bs with
  | nil =>
    intro t
    simp [pushAll, chain]
  | cons b bs ih =>
    intro t
    rw [pushAll, ih, push_first, push_rest, List.append_assoc]
    rfl

theorem pushAll_append (bs bs' : List (ω × α)) : ∀ t : OpTree α ω,
    t.pushAll level (bs ++ bs') = (t.pushAll level bs).pushAll level bs' := by
  induction bs with
  | nil => exact fun t => rfl
  | cons b bs ih => exact fun t => ih _

theorem pushAll_grouped (bs : List (ω × α)) : ∀ t : OpTree α ω, t.Grouped level →
    (t.pushAll level bs).Grouped level := by
  induction bs with
  | nil => exact fun t h => h
  | cons b bs ih => exact fun t h => ih _ (push_grouped b.1 b.2 t h)

/-- Every operator of a grouped tree is at least as strong as the root must be. -/
theorem Grouped.rest_level {k : Nat} {t : OpTree α ω} (h : t.Grouped level)
    (habove : t.Above level k) : ∀ b ∈ t.rest, k ≤ level b.1 := by
  induction t generalizing k with
  | leaf a => simp [rest]
  | node l o r ihl ihr =>
    intro b hb
    have hroot : k ≤ level o := habove
    simp only [rest, List.mem_append, List.mem_cons] at hb
    rcases hb with hb | rfl | hb
    · exact ihl h.1 (h.2.2.1.mono hroot) b hb
    · exact hroot
    · exact ihr h.2.1 (h.2.2.2.mono (Nat.le_succ_of_le hroot)) b hb

/-- Operators stronger than the root all go into the right part. -/
theorem pushAll_right (l : OpTree α ω) (o : ω) (bs : List (ω × α)) : ∀ r : OpTree α ω,
    (∀ b ∈ bs, level o < level b.1) →
      pushAll level (.node l o r) bs = .node l o (r.pushAll level bs) := by
  induction bs with
  | nil => exact fun r _ => rfl
  | cons b bs ih =>
    intro r hstrong
    have hb := hstrong b List.mem_cons_self
    rw [pushAll, push, if_pos hb, ih _ fun b' hb' => hstrong b' (List.mem_cons_of_mem _ hb')]
    rfl

/-- An operator that is not stronger than the root becomes the new root. -/
theorem push_of_above {o : ω} (b : α) {t : OpTree α ω} (h : t.Above level (level o)) :
    t.push level o b = .node t o (.leaf b) := by
  cases t with
  | leaf a => rfl
  | node l p r =>
    have hle : level o ≤ level p := h
    rw [push, if_neg (by omega)]

theorem Grouped.eq_group {t : OpTree α ω} (h : t.Grouped level) : t = t.chain.group level := by
  induction t with
  | leaf a => rfl
  | node l o r ihl ihr =>
    have hl : l = pushAll level (.leaf l.first) l.rest := ihl h.1
    have hr : r = pushAll level (.leaf r.first) r.rest := ihr h.2.1
    have hstrong : ∀ b ∈ r.rest, level o < level b.1 := h.2.1.rest_level h.2.2.2
    show _ = pushAll level (.leaf l.first) (l.rest ++ (o, r.first) :: r.rest)
    rw [pushAll_append, ← hl, pushAll, push_of_above r.first h.2.2.1,
      pushAll_right l o r.rest _ hstrong, ← hr]

end OpTree

namespace Chain

theorem group_grouped (level : ω → Nat) (c : Chain α ω) : (c.group level).Grouped level :=
  OpTree.pushAll_grouped c.rest (.leaf c.first) trivial

theorem group_chain (level : ω → Nat) (c : Chain α ω) : (c.group level).chain = c :=
  OpTree.pushAll_chain c.rest (.leaf c.first)

/-- The grouped tree over a chain is the one that `group` builds. -/
theorem grouped_iff_group (level : ω → Nat) (c : Chain α ω) (t : OpTree α ω) :
    t.Grouped level ∧ t.chain = c ↔ t = c.group level := by
  constructor
  · rintro ⟨hgrouped, rfl⟩
    exact hgrouped.eq_group
  · rintro rfl
    exact ⟨c.group_grouped level, c.group_chain level⟩

end Chain

end Grouping

/-! ## Induction by levels -/

section Levels

variable {α ω : Type} {level : ω → Nat}

namespace OpTree

/-- The parts of a grouped tree that the operators of level `k` at its root join. -/
theorem Grouped.spine {t : OpTree α ω} {k : Nat} (h : t.Grouped level) (habove : t.Above level k) :
    ∃ (a : OpTree α ω) (bs : List (ω × OpTree α ω)), t = a.extend bs ∧
      (a.Grouped level ∧ a.Above level (k + 1) ∧ a.size ≤ t.size) ∧
      ∀ b ∈ bs, level b.1 = k ∧ b.2.Grouped level ∧ b.2.Above level (k + 1) ∧
        b.2.size < t.size := by
  induction t with
  | leaf a => exact ⟨.leaf a, [], rfl, ⟨trivial, trivial, Nat.le_refl _⟩, by simp⟩
  | node l o r ihl _ =>
    have hroot : k ≤ level o := habove
    by_cases hk : level o = k
    · obtain ⟨a, bs, hspine, ⟨ha, haAbove, haSize⟩, hbs⟩ := ihl h.1 (h.2.2.1.mono hroot)
      refine ⟨a, bs ++ [(o, r)], by rw [extend_concat, ← hspine], ⟨ha, haAbove, ?_⟩, ?_⟩
      · simp only [size]
        omega
      · intro b hb
        rw [List.mem_append, List.mem_singleton] at hb
        rcases hb with hb | rfl
        · obtain ⟨hlevel, hgrouped, hab, hsize⟩ := hbs b hb
          exact ⟨hlevel, hgrouped, hab, by simp only [size]; omega⟩
        · exact ⟨hk, h.2.1, h.2.2.2.mono (by simp only [hk, Nat.le_refl]),
            by simp only [size]; omega⟩
    · have hstrong : k + 1 ≤ level o := by omega
      exact ⟨.node l o r, [], rfl, ⟨h, hstrong, Nat.le_refl _⟩, by simp⟩

/-- Induction over a grouped tree as a cascade of left folds meets it: the operands at the top
level, and at each level the parts of the level above joined by operators of this one. -/
theorem Grouped.by_levels {top : Nat} (hlevel : ∀ o, level o < top)
    {P : Nat → OpTree α ω → Prop} (leaf : ∀ a, P top (.leaf a))
    (fold : ∀ k < top, ∀ (a : OpTree α ω) (bs : List (ω × OpTree α ω)), P (k + 1) a →
      (∀ b ∈ bs, level b.1 = k ∧ P (k + 1) b.2) → P k (a.extend bs))
    {t : OpTree α ω} (h : t.Grouped level) {k : Nat} (hk : k ≤ top) (habove : t.Above level k) :
    P k t := by
  induction hn : t.size + (top - k) using Nat.strongRecOn generalizing t k with
  | ind n ih =>
    subst hn
    by_cases htop : k = top
    · -- no operator is as strong as the top level
      cases t with
      | leaf a => rw [htop]; exact leaf a
      | node l o r =>
        have hroot : k ≤ level o := habove
        have := hlevel o
        omega
    · obtain ⟨a, bs, hspine, ⟨ha, haAbove, haSize⟩, hbs⟩ := h.spine habove
      have hfirst : P (k + 1) a := ih _ (by omega) ha (by omega) haAbove rfl
      rw [hspine]
      refine fold k (by omega) a bs hfirst fun b hb => ?_
      obtain ⟨hop, hgrouped, hab, hsize⟩ := hbs b hb
      exact ⟨hop, ih _ (by omega) hgrouped (by omega) hab rfl⟩

end OpTree

end Levels

end VirtualPlc.Parsing
