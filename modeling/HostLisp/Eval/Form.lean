import HostLisp.Host

/-!
# Special forms

The forms receive expressions and evaluate what they need, with the evaluator they are handed.  The
numbers of expressions have been checked before a form runs; a form that is run without that check
reports what it can take.
-/

namespace HostLisp

variable (eval : Evaluator)

/-- Evaluates expressions from left to right. -/
def evalAll : List Value → Run (List Value)
  | [] => return []
  | e :: es => do
    let v ← eval e
    let vs ← evalAll es
    return v :: vs

/-- Evaluates expressions in order; the last value is the result, or `last` if there are none. -/
def evalSequence (last : Value) : List Value → Run Value
  | [] => return last
  | e :: es => do
    let v ← eval e
    evalSequence v es

/-! ### Closures -/

/-- Calls a closure: its parameters are bound in a new scope over what it has taken along, and its
body is evaluated there. -/
def Lambda.call (closure : Lambda) (actuals : List Value) : Run Value :=
  match closure.signature.bind (Environment.ofCaptured closure.captured).pushFrame actuals with
  | .error e => Run.fail e
  | .ok (_, env) =>
    Run.inEnvironment env
      (Run.through (.inLambda closure.body) (evalSequence eval .nil closure.body))

namespace Form

/-- Makes a closure. -/
def makeLambda : List Value → Run Value
  | [] => Run.fail (.arity (.atLeast 1) 0 none)
  | formals :: body => do
    let s ← Run.ofExcept (Signature.ofValue formals)
    let env ← Run.environment
    let closure ← Run.ofExcept (Lambda.build env s body)
    let identity ← Run.freshIdentity
    return .lambda identity closure

/-- Makes a variable in the innermost frame. -/
def declareVar (name : String) (ty : Ty) (v : Value) : Run Unit :=
  Run.update fun env => (env.defineVar name ty v).map fun (_, env) => ((), env)

/-- Binds names to initial values, each visible to those after it. -/
def bindAll : List Value → Run Unit
  | [] => return ()
  | .list [.atom a, init] :: rest => do
    let v ← eval init
    declareVar a.name a.ty v
    bindAll rest
  | binding :: _ => Run.fail (.ofMisfit (.notABinding binding))

/-- Evaluates a body in a scope with bindings of its own. -/
def withBindings : List Value → Run Value
  | .list pairs :: body =>
    Run.inFrame do
      bindAll eval pairs
      evalSequence eval .nil body
  | _ => Run.fail (.ofMisfit .noBindings)

/-- Declares a variable; without an initial value it holds nil, which its type then admits. -/
def runDeclare : List Value → Run Value
  | [.atom a] => do
    declareVar a.name a.ty.orNil .nil
    return .nil
  | [.atom a, init] => do
    let v ← eval init
    declareVar a.name a.ty v
    return v
  | [_] | [_, _] => Run.fail (.ofMisfit .declaredNotAName)
  | exprs => Run.fail (.arity (.exactly 2) exprs.length none)

/-- Assigns to a variable. -/
def runAssign : List Value → Run Value
  | [.atom a, expr] => do
    let v ← eval expr
    match ← Run.lookup a.name with
    | some (.var h) =>
      Run.update fun env => (env.setVar h v).map fun env => (v, env)
    | some _ => Run.fail (.ofMisfit (.notAVariable a.name))
    | none => Run.fail (.unbound a.name)
  | [_, _] => Run.fail (.ofMisfit .assignedNotAName)
  | exprs => Run.fail (.arity (.exactly 2) exprs.length none)

/-- Evaluates one of two expressions; without a second one the other case is nil. -/
def chooseBy (condition yes : Value) (no : Option Value) : Run Value := do
  match ← eval condition with
  | .bool true => eval yes
  | .bool false =>
    match no with
    | some e => eval e
    | none => return .nil
  | v => Run.fail (.operand .boolean v)

/-- Chooses by a condition. -/
def runChoose : List Value → Run Value
  | [condition, yes] => chooseBy eval condition yes none
  | [condition, yes, no] => chooseBy eval condition yes (some no)
  | exprs => Run.fail (.arity (.exactly 3) exprs.length none)

/-- An expression that cannot have a boolean as its value. -/
def isNeverBoolean : Value → Bool
  | .bool _ | .atom _ => false
  | .list items => items.isEmpty
  | _ => true

/-- Evaluates expressions up to the first whose value is `decisive`. -/
def junctionFrom (decisive : Bool) : List Value → Run Value
  | [] => return .bool !decisive
  | e :: es => do
    match ← eval e with
    | .bool b => if b = decisive then return .bool b else junctionFrom decisive es
    | v => Run.fail (.operand .boolean v)

/-- A conjunction or disjunction: a literal that is no boolean is refused before anything is
evaluated. -/
def runJunction (decisive : Bool) (exprs : List Value) : Run Value :=
  if exprs.isEmpty then Run.fail (.arity (.atLeast 1) 0 none)
  else
    match exprs.find? isNeverBoolean with
    | some literal => Run.fail (.operand .boolean literal)
    | none => junctionFrom eval decisive exprs

/-- Runs a form on its expressions. -/
def run : Form → List Value → Run Value
  | .quote, [e] => return e
  | .quote, exprs => Run.fail (.arity (.exactly 1) exprs.length none)
  | .lambda, exprs => makeLambda exprs
  | .bindings, exprs => withBindings eval exprs
  | .declare, exprs => runDeclare eval exprs
  | .assign, exprs => runAssign eval exprs
  | .choose, exprs => runChoose eval exprs
  | .conjunction, exprs => runJunction eval false exprs
  | .disjunction, exprs => runJunction eval true exprs

end Form

end HostLisp
