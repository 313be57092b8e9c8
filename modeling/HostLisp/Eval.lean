import HostLisp.Eval.Primitive

/-!
# Evaluation

Names are looked up, a quote gives what it quotes, a list is an application, and everything else is
its own value.  `eval host n` evaluates where `n` more evaluations may nest, and fails when `n` is
zero; so the depth limit of the language is what the recursion runs on, and a script can never make
evaluation go on for ever.
-/

namespace HostLisp

namespace Builtin

variable (host : Host) (level : Level)

/-- An operation without a check of the number of its arguments: a primitive on values, a form on
expressions. -/
def run : Builtin → List Value → Run Value
  | .primitive p, operands => runPrimitive host level p operands
  | .form f, exprs => f.run level.eval exprs

/-- An operation on expressions.  A primitive evaluates them before their number is checked, a form
has their number checked first. -/
def call : Builtin → List Value → Run Value
  | .primitive p, exprs => do
    let operands ← evalAll level.eval exprs
    Run.ofExcept (p.arity.check operands.length)
    runPrimitive host level p operands
  | .form f, exprs => do
    Run.ofExcept (f.arity.check exprs.length)
    f.run level.eval exprs

end Builtin

section
variable (host : Host) (level : Level)

/-- Calls a native with expressions. -/
def Native.call (callable : Native) (exprs : List Value) : Run Value :=
  match callable.body with
  | .builtin op => op.call host level exprs
  | .operation key => do
    let actuals ← evalAll level.eval exprs
    Run.ofExcept ((host.operation key).call actuals)
  | .raw key datum => host.raw key datum level.eval exprs

/-- The value of a name: variables by their contents, deferred computations by their result. -/
def evalName (name : String) : Run Value := do
  match ← Run.lookup name with
  | some (.value v) => settle host level v
  | some (.var h) => do
    let env ← Run.environment
    match env.var? h with
    | some v => return v
    | none => Run.fail (.ofFailure (.deadVariable name))
  | some (.type ty) => Run.fail (.ofMisfit (.typeAsValue name ty))
  | some (.toolkit _) => Run.fail (.ofMisfit (.toolkitAsValue name))
  | none => Run.fail (.unbound name)

/-- What the head of an application stands for.  A name bound to a deferred computation stands for
the computation, which is then called. -/
def evalHead (head : Value) : Run Value :=
  match head with
  | .atom a => do
    match ← Run.lookup a.name with
    | some (.value (.deferred task)) => return .deferred task
    | _ => level.eval head
  | _ => level.eval head

/-- An application: natives receive the arguments as expressions, closures their values. -/
def evalApplication (head : Value) (args : List Value) : Run Value := do
  match ← evalHead level head with
  | .native callable => do
    let result ← callable.call host level args
    settle host level result
  | .lambda _ closure => do
    let actuals ← evalAll level.eval args
    closure.call level.eval actuals
  | .deferred task =>
    if args.isEmpty then task.force host level.eval
    else Run.fail (.arity (.exactly 0) args.length (some head.text))
  | callee => Run.fail (.ofMisfit (.notApplicable callee))

/-- The value of an expression, by its shape. -/
def evalShape (expr : Value) : Run Value :=
  match expr with
  | .atom a => evalName host level a.name
  | .quote inner => return inner
  | .list (head :: args) => Run.through (.evaluating expr) (evalApplication host level head args)
  | _ => return expr

end

/-- Evaluates where `n` more evaluations may nest. -/
def eval (host : Host) : Nat → Evaluator
  | 0, _ => Run.fail (.ofFailure .depthLimit)
  | n + 1, expr => Run.nested (evalShape host ⟨n, eval host n⟩ expr)

/-- The level at which `n` more evaluations may nest. -/
def Level.at (host : Host) (n : Nat) : Level := ⟨n, HostLisp.eval host n⟩

/-- The level outside all evaluations. -/
def Level.top (host : Host) : Level := Level.at host maxEvalDepth

/-- Evaluates an expression outside all others. -/
def evaluate (host : Host) : Evaluator := eval host maxEvalDepth

/-- Reads a program with the types its environment names and evaluates its nodes in order; the last
value is the result, nil if there is none. -/
def runProgram (host : Host) (source : String) : Run Value := do
  let env ← Run.environment
  match env.dialect.readProgram source with
  | .error e => Run.fail (.reading e)
  | .ok program => evalSequence (evaluate host) .nil program

end HostLisp
