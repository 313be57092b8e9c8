import HostLisp.Eval.Arithmetic
import HostLisp.Eval.Form

/-!
# Primitives

The built-in operations on values.  Values of one comparable kind have their natural order; lists
are compared element by element, and what compares the elements is whatever the comparator's name is
bound to at that moment.  If that is a primitive again, it compares smaller values, so the recursion
ends although a script may bind the name to any operation.
-/

namespace HostLisp

/-- Where something runs: how deep evaluations may still nest there, and the evaluator. -/
structure Level where
  remaining : Nat
  eval : Evaluator

/-- Operands are passed on as quoted expressions: that takes an evaluation each, and the only thing
that can go wrong with it is that no more may nest. -/
def Level.reach (level : Level) (operands : List Value) : Run Unit :=
  if operands.isEmpty then return ()
  else if level.remaining = 0 then Run.fail (.ofFailure .depthLimit)
  else Run.nested (return ())

/-- The natural order of two values that are not lists. -/
def Value.naturalLess? : Value → Value → Option Bool
  | .int a, .int b => some (decide (a < b))
  | .string a, .string b => some (decide (a < b))
  | .time a, .time b => some (decide (a.nanos < b.nanos))
  | .duration a, .duration b => some (decide (a.nanos < b.nanos))
  | a, b =>
    match a.asFloat?, b.asFloat? with
    | some x, some y => some (decide (x < y))
    | _, _ => none

/-- Each value equals the next one. -/
def Value.allSame : List Value → Bool
  | a :: b :: vs => a == b && allSame (b :: vs)
  | _ => true

/-- The error for a number of operands other than two. -/
def twoOperandsError (operands : List Value) : Error :=
  let n := operands.length
  if n < 2 then .arity (.atLeast (n + 1)) n none else .arity (.exactly 2) n none

/-- What three-way comparison answers, from both strict comparisons and equality. -/
def orderOf (a b : Value) (less greater : Except Error Bool) : Except Error Value :=
  match less, greater with
  | .ok true, _ => .ok (.int (-1))
  | _, .ok true => .ok (.int 1)
  | less, greater =>
    if a == b then .ok (.int 0)
    else
      match less, greater with
      | .error (.misfit ..), _ => .error (.unordered a b)
      | .error e, _ => .error e
      | .ok _, .error e => .error e
      | .ok _, .ok _ => .error (.unordered a b)

/-- The value or the contents of the variable that a name stands for, if that can be applied. -/
def Environment.callable? (env : Environment) (name : String) : Option Value :=
  let bound :=
    match env.lookup name with
    | some (.value v) => some v
    | some (.var h) => env.var? h
    | _ => none
  bound.filter Value.isCallable

section
variable (host : Host) (level : Level)

/-- A value that is deferred is computed, once. -/
def settle : Value → Run Value
  | .deferred task => task.force host level.eval
  | v => return v

/-- What a native answers on values, which it gets quoted. `primitive` says what a primitive answers
on these values. -/
def Native.answer (primitive : Primitive → Run Value) (callable : Native)
    (operands : List Value) : Run Value :=
  match callable.body with
  | .builtin (.primitive p) => do
    level.reach operands
    primitive p
  | .builtin (.form f) => do
    Run.ofExcept (f.arity.check operands.length)
    f.run level.eval (operands.map .quote)
  | .operation key => do
    level.reach operands
    Run.ofExcept ((host.operation key).call operands)
  | .raw key datum => host.raw key datum level.eval (operands.map .quote)

/-- Applies a callable to values.  What a native defers is done at once. -/
def applyTo (primitive : Primitive → Run Value) (callee : Value) (operands : List Value) :
    Run Value :=
  match callee with
  | .native callable => do
    let result ← callable.answer host level primitive operands
    settle host level result
  | .lambda _ closure => closure.call level.eval operands
  | .deferred task =>
    if operands.isEmpty then task.force host level.eval
    else Run.fail (.ofMisfit (.notApplicable callee))
  | _ => Run.fail (.ofMisfit (.notApplicable callee))

/-- What a comparator's name is bound to, if it can be applied. -/
def boundComparator (name : String) : Run (Option Value) := do
  let env ← Run.environment
  return env.callable? name

mutual
/-- A primitive on values. -/
def runPrimitive (p : Primitive) (operands : List Value) : Run Value :=
  match p, operands with
  | .arithmetic op, vs => Run.ofExcept (op.perform vs)
  | .comparison relation, [a, b] => compare relation a b
  | .comparison _, vs => Run.fail (twoOperandsError vs)
  | .equality negated lenient, vs =>
    return .bool (!(lenient && vs.any Value.isNil) && (Value.allSame vs != negated))
  | .order, [a, b] => do
    let less ← Run.attempt (lessThan false a b)
    let greater ← Run.attempt (lessThan false b a)
    Run.ofExcept (orderOf a b less greater)
  | .order, vs => Run.fail (twoOperandsError vs)
  | .not, [.bool b] => return .bool !b
  | .not, [v] => Run.fail (.operand .boolean v)
  | .not, vs => Run.fail (.arity (.exactly 1) vs.length none)
  | .list, vs => return .list vs
termination_by (sizeOf operands, 3)
decreasing_by all_goals simp [Prod.lex_def]; omega
/-- An order relation between two values. -/
def compare (relation : Comparison) (a b : Value) : Run Value :=
  if relation.lenient && (a.isNil || b.isNil) then return .bool false
  else if relation.orEqual && a == b then return .bool true
  else if relation.swapped then Value.bool <$> lessThan relation.lenient b a
  else Value.bool <$> lessThan relation.lenient a b
termination_by (sizeOf a + sizeOf b + 3, 2)
decreasing_by all_goals simp [Prod.lex_def]; try omega
/-- The strict order. -/
def lessThan (lenient : Bool) (a b : Value) : Run Bool :=
  match a, b with
  | .list as, .list bs => lessItems lenient as bs
  | a, b =>
    match a.naturalLess? b with
    | some answer => return answer
    | none => Run.fail (.ofMisfit (.notComparable a b))
termination_by (sizeOf a + sizeOf b + 3, 1)
decreasing_by all_goals simp [Prod.lex_def]; omega
/-- The strict order of lists: the first difference decides, and a list comes after its
beginnings. -/
def lessItems (lenient : Bool) (as bs : List Value) : Run Bool :=
  match as, bs with
  | a :: as, b :: bs => do
    if ← lessElement lenient a b then return true
    else if ← lessElement lenient b a then return false
    else lessItems lenient as bs
  | [], bs => return !bs.isEmpty
  | _ :: _, [] => return false
termination_by (sizeOf as + sizeOf bs + 3, 0)
decreasing_by all_goals simp [Prod.lex_def]; omega
/-- The order of two elements, by what the comparator is bound to. -/
def lessElement (lenient : Bool) (a b : Value) : Run Bool := do
  match ← boundComparator (comparator lenient) with
  | some callee =>
    let primitive (p : Primitive) : Run Value := do
      Run.ofExcept (p.arity.check 2)
      runPrimitive p [a, b]
    match ← applyTo host level primitive callee [a, b] with
    | .bool answer => return answer
    | v => Run.fail (.ofMisfit (.answerNotBoolean (comparator lenient) v))
  | none =>
    if lenient && (a.isNil || b.isNil) then return false else lessThan lenient a b
termination_by (sizeOf a + sizeOf b + 3, 4)
decreasing_by all_goals simp [Prod.lex_def]; try omega
end

end

end HostLisp
