import HostLisp.Proofs.Evaluation.Capture

/-!
# The recursion of evaluation

Everything that runs is made of two kinds of calls, loops over lists, and steps that call nothing:
expressions are evaluated, and values are compared.  `Calls.step` is one round of the recursion
between them.  Evaluation looks at the depth of the machine and nowhere else is there a limit;
comparing lists looks up the comparator, applies what it is bound to, and so gets to evaluation, or
without any evaluation back to comparing, with the same values or others.

A computation settles if, from any machine, some number of rounds is enough: what stands for the calls
that are deeper is never asked.  The combinators of computations keep that.
-/

namespace HostLisp

/-- The computations that call themselves and each other. -/
structure Calls where
  eval : Evaluator
  less : Bool → Value → Value → Run Bool

namespace Calls

/-! ### One round -/

section
variable (host : Host) (c : Calls)

/-- Where only evaluation is called. -/
def level : Level := ⟨0, c.eval⟩

/-- An order relation between two values. -/
def compare (relation : Comparison) (a b : Value) : Run Value :=
  if relation.lenient && (a.isNil || b.isNil) then return .bool false
  else if relation.orEqual && a == b then return .bool true
  else if relation.swapped then Value.bool <$> c.less relation.lenient b a
  else Value.bool <$> c.less relation.lenient a b

/-- A primitive on values. -/
def primitive (p : Primitive) (operands : List Value) : Run Value :=
  match p, operands with
  | .arithmetic op, vs => Run.ofExcept (op.perform vs)
  | .comparison relation, [a, b] => compare c relation a b
  | .comparison _, vs => Run.fail (twoOperandsError vs)
  | .equality negated lenient, vs =>
    return .bool (!(lenient && vs.any Value.isNil) && (Value.allSame vs != negated))
  | .order, [a, b] => do
    let less ← Run.attempt (c.less false a b)
    let greater ← Run.attempt (c.less false b a)
    Run.ofExcept (orderOf a b less greater)
  | .order, vs => Run.fail (twoOperandsError vs)
  | .not, [.bool b] => return .bool !b
  | .not, [v] => Run.fail (.operand .boolean v)
  | .not, vs => Run.fail (.arity (.exactly 1) vs.length none)
  | .list, vs => return .list vs

/-- Calls a native with expressions. -/
def native (callable : Native) (exprs : List Value) : Run Value :=
  match callable.body with
  | .builtin (.primitive p) => do
    let operands ← evalAll c.eval exprs
    Run.ofExcept (p.arity.check operands.length)
    primitive c p operands
  | _ => callable.call host c.level exprs

/-- Applies a callable to values, which a native gets quoted. -/
def apply (callee : Value) (operands : List Value) : Run Value :=
  match callee with
  | .native callable => do
    let result ← native host c callable (operands.map .quote)
    settle host c.level result
  | .lambda _ closure => closure.call c.eval operands
  | .deferred task =>
    if operands.isEmpty then task.force host c.eval
    else Run.fail (.ofMisfit (.notApplicable callee))
  | _ => Run.fail (.ofMisfit (.notApplicable callee))

/-- The order of two elements, by what the comparator is bound to. -/
def element (lenient : Bool) (a b : Value) : Run Bool := do
  match ← boundComparator (comparator lenient) with
  | some callee =>
    match ← apply host c callee [a, b] with
    | .bool answer => return answer
    | v => Run.fail (.ofMisfit (.answerNotBoolean (comparator lenient) v))
  | none =>
    if lenient && (a.isNil || b.isNil) then return false else c.less lenient a b

/-- The strict order of lists. -/
def items (lenient : Bool) : List Value → List Value → Run Bool
  | a :: as, b :: bs => do
    if ← element host c lenient a b then return true
    else if ← element host c lenient b a then return false
    else items lenient as bs
  | [], bs => return !bs.isEmpty
  | _ :: _, [] => return false

/-- The strict order of values that are not lists. -/
def natural (a b : Value) : Run Bool :=
  match a.naturalLess? b with
  | some answer => return answer
  | none => Run.fail (.ofMisfit (.notComparable a b))

/-- The strict order of values. -/
def order (lenient : Bool) (a b : Value) : Run Bool :=
  match a, b with
  | .list as, .list bs => items host c lenient as bs
  | a, b => natural a b

/-- An application. -/
def application (head : Value) (args : List Value) : Run Value := do
  match ← evalHead c.level head with
  | .native callable => do
    let result ← native host c callable args
    settle host c.level result
  | .lambda _ closure => do
    let actuals ← evalAll c.eval args
    closure.call c.eval actuals
  | .deferred task =>
    if args.isEmpty then task.force host c.eval
    else Run.fail (.arity (.exactly 0) args.length (some head.text))
  | callee => Run.fail (.ofMisfit (.notApplicable callee))

/-- The value of an expression, by its shape. -/
def shape (expr : Value) : Run Value :=
  match expr with
  | .atom a => evalName host c.level a.name
  | .quote inner => return inner
  | .list (head :: args) => Run.through (.evaluating expr) (application host c head args)
  | _ => return expr

/-- Evaluation, as far as the depth allows. -/
def evaluation (expr : Value) : Run Value := fun m =>
  if m.depth < maxEvalDepth then Run.nested (shape host c expr) m
  else Run.fail (.ofFailure .depthLimit) m

end

/-- One round of the recursion. -/
def step (host : Host) (c : Calls) : Calls := ⟨evaluation host c, order host c⟩

/-- Some rounds of the recursion; deeper calls are answered by `rest`. -/
def unroll (host : Host) : Nat → Calls → Calls
  | 0, rest => rest
  | k + 1, rest => step host (unroll host k rest)

end Calls

/-! ### Computations that keep the depth -/

/-- So many evaluations are under way, and all natives are built-in operations. -/
structure Machine.Plain (d : Nat) (m : Machine) : Prop where
  depth : m.depth = d
  within : m.env.Within .plain

namespace Run

variable {α β : Type} {d : Nat} {P : α → Prop} {x : Run α}

/-- However the computation ends, as many evaluations are under way as before, and all natives are
built-in operations; an answer has the property `P`. -/
def KeepsPlain (d : Nat) (P : α → Prop) (x : Run α) : Prop :=
  ∀ m : Machine, m.Plain d → (x m).2.Plain d ∧ ∀ a, (x m).1 = .ok a → P a

theorem KeepsPlain.pure {a : α} (h : P a) : KeepsPlain d P (Pure.pure a) := by
  refine fun m hm => ⟨hm, ?_⟩
  rintro b ⟨⟩
  exact h

theorem KeepsPlain.fail (e : Error) : KeepsPlain d P (fail e) := fun _ hm => ⟨hm, nofun⟩

theorem KeepsPlain.ofExcept {outcome : Except Error α} (h : ∀ a, outcome = .ok a → P a) :
    KeepsPlain d P (ofExcept outcome) := fun _ hm => ⟨hm, h⟩

theorem KeepsPlain.environment : KeepsPlain d (Environment.Within .plain) environment := by
  refine fun m hm => ⟨hm, ?_⟩
  rintro env ⟨⟩
  exact hm.within

theorem KeepsPlain.lookup (name : String) :
    KeepsPlain d (fun b => ∀ b' ∈ b, Binding.Within .plain b') (lookup name) := by
  refine fun m hm => ⟨hm, ?_⟩
  rintro b ⟨⟩ b' hb'
  exact (hm.within.lookup hb').resolve_left fun ⟨_, _, hf⟩ => hf

theorem KeepsPlain.freshIdentity : KeepsPlain d (fun _ => True) freshIdentity :=
  fun _ hm => ⟨⟨hm.depth, hm.within⟩, fun _ _ => trivial⟩

theorem KeepsPlain.update_map {γ : Type} {change : Environment → Except Error γ}
    {k : γ → α × Environment}
    (hk : ∀ env c, env.Within .plain → change env = .ok c → (k c).2.Within .plain ∧ P (k c).1) :
    KeepsPlain d P (update fun env => (change env).map k) := by
  intro m hm
  cases h : change m.env with
  | ok c =>
    obtain ⟨hwithin, hP⟩ := hk m.env c hm.within h
    rw [update_map_of_ok h]
    refine ⟨⟨hm.depth, hwithin⟩, ?_⟩
    rintro a ⟨⟩
    exact hP
  | error e =>
    rw [update_map_of_error h]
    exact ⟨hm, nofun⟩

theorem KeepsPlain.declareVar {name : String} {ty : Ty} {v : Value} (hv : v.Within .plain) :
    KeepsPlain d (fun _ => True) (Form.declareVar name ty v) :=
  .update_map fun _ _ henv h => ⟨henv.defineVar trivial hv h, trivial⟩

theorem KeepsPlain.assign {handle : Handle} {v : Value} (hv : v.Within .plain) :
    KeepsPlain d (Value.Within .plain)
      (update fun env => (env.setVar handle v).map fun env => (v, env)) :=
  .update_map fun _ _ henv h => ⟨henv.setVar hv h, hv⟩

end Run

/-! ### Computations that settle -/

/-- After some rounds that depend on the machine, however many more there are and whatever answers
deeper calls, `X` does what `x` does; and `x` keeps the depth. -/
def Settles (host : Host) (d : Nat) {α : Type} (P : α → Prop) (X : Calls → Run α) (x : Run α) :
    Prop :=
  ∀ m : Machine, m.Plain d →
    (∃ k, ∀ j, k ≤ j → ∀ rest, X (Calls.unroll host j rest) m = x m) ∧
      (x m).2.Plain d ∧ ∀ a, (x m).1 = .ok a → P a

namespace Settles

variable {host : Host} {d : Nat} {α β : Type} {P Q : α → Prop} {S : β → Prop}
  {X : Calls → Run α} {x : Run α} {F : Calls → α → Run β} {f : α → Run β}

/-- Where nothing is called, no round is needed. -/
theorem of_keeps (h : Run.KeepsPlain d P x) : Settles host d P (fun _ => x) x :=
  fun m hm => ⟨⟨0, fun _ _ _ => rfl⟩, h m hm⟩

theorem pure {a : α} (h : P a) : Settles host d P (fun _ => Pure.pure a) (Pure.pure a) :=
  of_keeps (.pure h)

theorem fail (e : Error) : Settles host d P (fun _ => Run.fail e) (Run.fail e) :=
  of_keeps (.fail e)

theorem ofExcept {outcome : Except Error α} (h : ∀ a, outcome = .ok a → P a) :
    Settles host d P (fun _ => Run.ofExcept outcome) (Run.ofExcept outcome) :=
  of_keeps (.ofExcept h)

/-- Any outcome will do. -/
theorem outcome (outcome : Except Error α) :
    Settles host d (fun _ => True) (fun _ => Run.ofExcept outcome) (Run.ofExcept outcome) :=
  ofExcept fun _ _ => trivial

/-- On machines at this depth the computations may be written in another way. -/
theorem congr {Y : Calls → Run α} (h : ∀ c m, m.Plain d → Y c m = X c m)
    (hX : Settles host d P X x) : Settles host d P Y x := by
  intro m hm
  obtain ⟨⟨k, hk⟩, hstays⟩ := hX m hm
  exact ⟨⟨k, fun j hj rest => (h _ m hm).trans (hk j hj rest)⟩, hstays⟩

/-- The answers are known from the computation itself. -/
theorem of_answers (hX : Settles host d P X x) (h : ∀ m a, (x m).1 = .ok a → Q a) :
    Settles host d Q X x := by
  intro m hm
  obtain ⟨hk, hplain, -⟩ := hX m hm
  exact ⟨hk, hplain, h m⟩

theorem bind (hX : Settles host d P X x)
    (hF : ∀ a, P a → Settles host d S (fun c => F c a) (f a)) :
    Settles host d S (fun c => X c >>= F c) (x >>= f) := by
  intro m hm
  obtain ⟨⟨k, hk⟩, hplain, hP⟩ := hX m hm
  rw [Run.bind_apply]
  rcases hxm : x m with ⟨e | a, m'⟩ <;> rw [hxm] at hplain hP
  · refine ⟨⟨k, fun j hj rest => ?_⟩, hplain, nofun⟩
    exact Run.bind_of_error ((hk j hj rest).trans hxm)
  -- The second computation starts where the first ends, and may need more rounds than it.
  · obtain ⟨⟨k', hk'⟩, hstays⟩ := hF a (hP a rfl) m' hplain
    refine ⟨⟨max k k', fun j hj rest => ?_⟩, hstays⟩
    have hX := (hk j (Nat.le_trans (Nat.le_max_left k k') hj) rest).trans hxm
    exact (Run.bind_of_ok hX).trans (hk' j (Nat.le_trans (Nat.le_max_right k k') hj) rest)

theorem map {g : α → β} (hX : Settles host d P X x) (hg : ∀ a, P a → S (g a)) :
    Settles host d S (fun c => g <$> X c) (g <$> x) :=
  bind (F := fun _ a => Pure.pure (g a)) (f := fun a => Pure.pure (g a)) hX fun a ha =>
    pure (hg a ha)

theorem attempt (hX : Settles host d P X x) :
    Settles host d (fun _ => True) (fun c => Run.attempt (X c)) (Run.attempt x) := by
  intro m hm
  obtain ⟨⟨k, hk⟩, hplain, -⟩ := hX m hm
  refine ⟨⟨k, fun j hj rest => ?_⟩, hplain, fun _ _ => trivial⟩
  show Run.attempt (X _) m = _
  unfold Run.attempt
  rw [hk j hj rest]

theorem through (p : Passage) (hX : Settles host d P X x) :
    Settles host d P (fun c => Run.through p (X c)) (Run.through p x) := by
  intro m hm
  obtain ⟨⟨k, hk⟩, hplain, hP⟩ := hX m hm
  refine ⟨⟨k, fun j hj rest => ?_⟩, ?_⟩
  · show Run.through p (X _) m = _
    unfold Run.through
    rw [hk j hj rest]
  · unfold Run.through
    rcases hxm : x m with ⟨e | a, m'⟩ <;> rw [hxm] at hplain hP
    · exact ⟨hplain, nofun⟩
    · exact ⟨hplain, hP⟩

/-- Inside one evaluation more is under way. -/
theorem nested (hX : Settles host (d + 1) P X x) :
    Settles host d P (fun c => Run.nested (X c)) (Run.nested x) := by
  intro m hm
  have hinside : Machine.Plain (d + 1)
      { m with depth := m.depth + 1, deepest := max m.deepest (m.depth + 1) } :=
    ⟨congrArg (· + 1) hm.depth, hm.within⟩
  obtain ⟨⟨k, hk⟩, hplain, hP⟩ := hX _ hinside
  refine ⟨⟨k, fun j hj rest => ?_⟩, ⟨congrArg (· - 1) hplain.depth, hplain.within⟩, hP⟩
  show Run.nested (X _) m = _
  unfold Run.nested
  rw [hk j hj rest]

theorem inFrame (hX : Settles host d P X x) :
    Settles host d P (fun c => Run.inFrame (X c)) (Run.inFrame x) := by
  intro m hm
  obtain ⟨⟨k, hk⟩, hplain, hP⟩ :=
    hX { m with env := m.env.pushFrame } ⟨hm.depth, hm.within.pushFrame⟩
  refine ⟨⟨k, fun j hj rest => ?_⟩, ⟨hplain.depth, hplain.within.popFrame⟩, hP⟩
  show Run.inFrame (X _) m = _
  unfold Run.inFrame
  rw [hk j hj rest]

theorem inEnvironment {env : Environment} (henv : env.Within .plain) (hX : Settles host d P X x) :
    Settles host d P (fun c => Run.inEnvironment env (X c)) (Run.inEnvironment env x) := by
  intro m hm
  obtain ⟨⟨k, hk⟩, hplain, hP⟩ := hX { m with env } ⟨hm.depth, henv⟩
  refine ⟨⟨k, fun j hj rest => ?_⟩, ⟨hplain.depth, hm.within⟩, hP⟩
  show Run.inEnvironment env (X _) m = _
  unfold Run.inEnvironment
  rw [hk j hj rest]

/-! A call takes one round more than what it does. -/

theorem of_step (hX : Settles host d P (fun c => X (Calls.step host c)) x) :
    Settles host d P X x := by
  intro m hm
  obtain ⟨⟨k, hk⟩, hstays⟩ := hX m hm
  refine ⟨⟨k + 1, fun j hj rest => ?_⟩, hstays⟩
  obtain ⟨j, rfl⟩ : ∃ i, j = i + 1 := ⟨j - 1, by omega⟩
  exact hk j (Nat.le_of_succ_le_succ hj) rest

theorem eval {expr : Value} {x : Run Value} {P : Value → Prop}
    (hX : Settles host d P (fun c => Calls.evaluation host c expr) x) :
    Settles host d P (fun c => c.eval expr) x :=
  of_step (X := fun c => c.eval expr) hX

theorem less {lenient : Bool} {a b : Value} {x : Run Bool} {P : Bool → Prop}
    (hX : Settles host d P (fun c => Calls.order host c lenient a b) x) :
    Settles host d P (fun c => c.less lenient a b) x :=
  of_step (X := fun c => c.less lenient a b) hX

end Settles

end HostLisp
