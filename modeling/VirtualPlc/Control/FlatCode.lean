import VirtualPlc.Control.Structured

/-!
# Flat code and its block structure

A function body is written as a flat token sequence in which `block`, `loop` and `cond` open a
construct, `els` starts the second arm of a conditional and `fin` closes the innermost construct;
the `fin` that closes no construct ends the body. `parseBody` recovers the tree, `flatten` writes
it out, and `parseBody_flatten` shows that the tree of a flattened sequence is the sequence itself
without its observations, which have no token.
-/

set_option autoImplicit false

namespace VirtualPlc.Control

universe u v w x

/-- Tokens of flat code over basic operations `ι`. -/
inductive Token (ι : Type u) where
  | op (i : ι)
  | block
  | loop
  | cond
  | els
  | fin
deriving DecidableEq, Repr

variable {ι : Type u} {κ : Type v} {ε : Type w} {σ : Type x}

mutual
/-- The tokens of one construct. -/
def Code.flatten : Code ι κ → List (Token ι)
  | .op i => [.op i]
  | .probe _ => []
  | .block body => .block :: (flatten body ++ [.fin])
  | .loop body => .loop :: (flatten body ++ [.fin])
  | .ifThen thn => .cond :: (flatten thn ++ [.fin])
  | .ifElse thn els => .cond :: (flatten thn ++ .els :: (flatten els ++ [.fin]))
/-- The tokens of a sequence. -/
def flatten : List (Code ι κ) → List (Token ι)
  | [] => []
  | c :: cs => c.flatten ++ flatten cs
end

mutual
/-- One construct without its observations. -/
def Code.strip : Code ι κ → List (Code ι κ)
  | .op i => [.op i]
  | .probe _ => []
  | .block body => [.block (strip body)]
  | .loop body => [.loop (strip body)]
  | .ifThen thn => [.ifThen (strip thn)]
  | .ifElse thn els => [.ifElse (strip thn) (strip els)]
/-- A sequence without its observations. -/
def strip : List (Code ι κ) → List (Code ι κ)
  | [] => []
  | c :: cs => c.strip ++ strip cs
end

/-- An open construct: its kind, with the first arm once that is complete. -/
inductive Opened (ι : Type u) (κ : Type v) where
  | block
  | loop
  | cond
  | els (thn : List (Code ι κ))

/-- The construct closed by `fin` around `body`. -/
def Opened.close (o : Opened ι κ) (body : List (Code ι κ)) : Code ι κ :=
  match o with
  | .block => .block body
  | .loop => .loop body
  | .cond => .ifThen body
  | .els thn => .ifElse thn body

/-- Parse tokens: `opened` holds the open constructs, innermost first, each with the reversed code
before it, and `done` the reversed code of the innermost one so far. -/
def parse : List (Token ι) → List (Opened ι κ × List (Code ι κ)) → List (Code ι κ) →
    Option (List (Code ι κ))
  | [], _, _ => none
  | .op i :: ts, opened, done => parse ts opened (.op i :: done)
  | .block :: ts, opened, done => parse ts ((.block, done) :: opened) []
  | .loop :: ts, opened, done => parse ts ((.loop, done) :: opened) []
  | .cond :: ts, opened, done => parse ts ((.cond, done) :: opened) []
  | .els :: ts, (.cond, before) :: opened, done =>
    parse ts ((.els done.reverse, before) :: opened) []
  | .els :: _, _, _ => none
  | .fin :: ts, (o, before) :: opened, done => parse ts opened (o.close done.reverse :: before)
  | [.fin], [], done => some done.reverse
  | .fin :: _ :: _, [], _ => none

/-- The tree of a function body. -/
def parseBody (ts : List (Token ι)) : Option (List (Code ι κ)) := parse ts [] []

@[simp] theorem flatten_nil : flatten ([] : List (Code ι κ)) = [] := rfl
@[simp] theorem flatten_cons (c : Code ι κ) (cs : List (Code ι κ)) :
    flatten (c :: cs) = c.flatten ++ flatten cs := rfl

@[simp] theorem flatten_append (a b : List (Code ι κ)) :
    flatten (a ++ b) = flatten a ++ flatten b := by
  induction a with
  | nil => rfl
  | cons c cs ih => rw [List.cons_append, flatten_cons, flatten_cons, ih, List.append_assoc]

@[simp] theorem strip_nil : strip ([] : List (Code ι κ)) = [] := rfl
@[simp] theorem strip_cons (c : Code ι κ) (cs : List (Code ι κ)) :
    strip (c :: cs) = c.strip ++ strip cs := rfl

@[simp] theorem strip_append (a b : List (Code ι κ)) : strip (a ++ b) = strip a ++ strip b := by
  induction a with
  | nil => rfl
  | cons c cs ih => rw [List.cons_append, strip_cons, strip_cons, ih, List.append_assoc]

mutual
theorem parse_flatten_code :
    ∀ (c : Code ι κ) (ts : List (Token ι)) (opened : List (Opened ι κ × List (Code ι κ)))
      (done : List (Code ι κ)),
      parse (c.flatten ++ ts) opened done = parse ts opened (c.strip.reverse ++ done)
  | .op _, _, _, _ => rfl
  | .probe _, _, _, _ => rfl
  | .block body, ts, opened, done => by
    have h := parse_flatten_seq body (.fin :: ts) ((.block, done) :: opened) []
    simp only [Code.flatten, Code.strip, List.cons_append, List.append_assoc, List.nil_append]
    simpa [parse, Opened.close] using h
  | .loop body, ts, opened, done => by
    have h := parse_flatten_seq body (.fin :: ts) ((.loop, done) :: opened) []
    simp only [Code.flatten, Code.strip, List.cons_append, List.append_assoc, List.nil_append]
    simpa [parse, Opened.close] using h
  | .ifThen thn, ts, opened, done => by
    have h := parse_flatten_seq thn (.fin :: ts) ((.cond, done) :: opened) []
    simp only [Code.flatten, Code.strip, List.cons_append, List.append_assoc, List.nil_append]
    simpa [parse, Opened.close] using h
  | .ifElse thn els, ts, opened, done => by
    have h := parse_flatten_seq thn (.els :: (flatten els ++ .fin :: ts))
      ((.cond, done) :: opened) []
    have h' := parse_flatten_seq els (.fin :: ts) ((.els (strip thn), done) :: opened) []
    simp only [Code.flatten, Code.strip, List.cons_append, List.append_assoc, List.nil_append]
    simp only [parse, h, List.append_nil, List.reverse_reverse, h']
    simp [Opened.close]
theorem parse_flatten_seq :
    ∀ (cs : List (Code ι κ)) (ts : List (Token ι)) (opened : List (Opened ι κ × List (Code ι κ)))
      (done : List (Code ι κ)),
      parse (flatten cs ++ ts) opened done = parse ts opened ((strip cs).reverse ++ done)
  | [], _, _, _ => rfl
  | c :: cs, ts, opened, done => by
    have h := parse_flatten_code c (flatten cs ++ ts) opened done
    have h' := parse_flatten_seq cs ts opened (c.strip.reverse ++ done)
    simp only [flatten_cons, strip, List.append_assoc, List.reverse_append]
    rw [h, h']
end

/-- Parsing recovers the block structure of flattened code. -/
theorem parseBody_flatten (cs : List (Code ι κ)) :
    parseBody (flatten cs ++ [.fin]) = some (strip cs) := by
  rw [parseBody, parse_flatten_seq]
  simp [parse]

/-! ## Observations that never stop -/

/-- The machine `m` with observations that never stop. -/
def Machine.unobserved (m : Machine ι κ ε σ) : Machine ι κ ε σ :=
  { m with probe := fun _ _ => none }

mutual
theorem execSeq_strip_code (m : Machine ι κ ε σ) (n : Nat) :
    ∀ (c : Code ι κ) (s : σ), execSeq m n c.strip s = exec m.unobserved n c s
  | .op i, s => by
    rw [Code.strip, execSeq_singleton]
    rfl
  | .probe _, _ => rfl
  | .block body, s => by
    rw [Code.strip, execSeq_singleton, exec_block, execSeq_strip m n body]
    rfl
  | .loop body, s => by
    have hb : execSeq m n (strip body) = execSeq m.unobserved n body :=
      funext (execSeq_strip m n body)
    rw [Code.strip, execSeq_singleton, exec_loop, hb]
    rfl
  | .ifThen thn, s => by
    rw [Code.strip, execSeq_singleton, exec_ifThen]
    simp only [execSeq_strip m n thn]
    rfl
  | .ifElse thn els, s => by
    rw [Code.strip, execSeq_singleton, exec_ifElse]
    simp only [execSeq_strip m n thn, execSeq_strip m n els]
    rfl
/-- Code without its observations runs like the code with observations that never stop. -/
theorem execSeq_strip (m : Machine ι κ ε σ) (n : Nat) :
    ∀ (cs : List (Code ι κ)) (s : σ), execSeq m n (strip cs) s = execSeq m.unobserved n cs s
  | [], _ => rfl
  | c :: cs, s => by
    have ih : execSeq m n (strip cs) = execSeq m.unobserved n cs := funext (execSeq_strip m n cs)
    rw [strip, execSeq_append, execSeq_strip_code m n c s, ih, execSeq_cons]
end

/-- A machine whose observations stop it for one reason monitors the one without observations. -/
theorem Machine.monitors_unobserved {m : Machine ι κ ε σ} {e : ε}
    (h : ∀ k s, m.probe k s = some e ∨ m.probe k s = none) : m.Monitors m.unobserved e where
  step := fun i s => .refl e (m.step i s)
  probe := fun k s => (h k s).imp_right Eq.symm
  test := rfl
  unwind := rfl

/-- A run that no observation stops is a run of the code without them. -/
theorem execSeq_agrees_strip {m : Machine ι κ ε σ} {e : ε}
    (h : ∀ k s, m.probe k s = some e ∨ m.probe k s = none) (n : Nat) (cs : List (Code ι κ))
    (s : σ) :
    (execSeq m n cs s).AgreesUnless e (execSeq m n (strip cs) s) := by
  rw [execSeq_strip]
  exact execSeq_agreesUnless (Machine.monitors_unobserved h) n cs s

/-! ## Observations of another kind -/

universe y

variable {κ' : Type y}

mutual
/-- One construct without its observations, as code with observations of another kind. -/
def Code.erase : Code ι κ → List (Code ι κ')
  | .op i => [.op i]
  | .probe _ => []
  | .block body => [.block (erase body)]
  | .loop body => [.loop (erase body)]
  | .ifThen thn => [.ifThen (erase thn)]
  | .ifElse thn els => [.ifElse (erase thn) (erase els)]
/-- A sequence without its observations, as code with observations of another kind. -/
def erase : List (Code ι κ) → List (Code ι κ')
  | [] => []
  | c :: cs => c.erase ++ erase cs
end

mutual
theorem flatten_erase_code : ∀ c : Code ι κ, flatten (c.erase : List (Code ι κ')) = c.flatten
  | .op _ => rfl
  | .probe _ => rfl
  | .block body => by simp [Code.erase, Code.flatten, flatten_erase body]
  | .loop body => by simp [Code.erase, Code.flatten, flatten_erase body]
  | .ifThen thn => by simp [Code.erase, Code.flatten, flatten_erase thn]
  | .ifElse thn els => by simp [Code.erase, Code.flatten, flatten_erase thn, flatten_erase els]
/-- Observations have no token. -/
theorem flatten_erase : ∀ cs : List (Code ι κ), flatten (erase cs : List (Code ι κ')) = flatten cs
  | [] => rfl
  | c :: cs => by
    rw [erase, flatten_append, flatten_erase_code c, flatten_erase cs, flatten_cons]
end

end VirtualPlc.Control
