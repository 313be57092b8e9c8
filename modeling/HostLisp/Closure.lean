import HostLisp.Signature

/-!
# Free names and closures

A closure takes along what its free names are bound to where it is made, and then no longer depends
on that place.  Which names are free is read off the body alone:

* a name is free where it is evaluated and not bound by then;
* a quote mark and an unbound `quote` form hide everything in them;
* the parameters of a `lambda` form are bound in its body;
* the names of a `let` form are bound one after the other, each behind its own initial value;
* a `var` form binds its name from there on in the same body.

A form counts as such only where its name is not bound.
-/

namespace HostLisp

/-! ### Free names -/

/-- What the head of a list makes of it, as far as binding goes. -/
inductive Binder where
  | quote
  | lambda
  | bindings
  | declare
  /-- An application, or a form that binds nothing. -/
  | none
deriving DecidableEq, Repr

namespace Binder

/-- The binder that the head of a list stands for. -/
def ofHead (bound : List String) : Value → Binder
  | .atom a =>
    if a.name ∈ bound then .none
    else if a.name = "quote" then .quote
    else if a.name = "lambda" then .lambda
    else if a.name = "let" then .bindings
    else if a.name = "var" then .declare
    else .none
  | _ => .none

end Binder

/-- The names of the atoms among some values. -/
def atomNames (vs : List Value) : List String :=
  vs.filterMap fun
    | .atom a => some a.name
    | _ => none

/-- The names of a parameter list, as far as it is one. -/
def parameterNames : Value → List String
  | .list items => atomNames items
  | _ => []

namespace Free

mutual
/-- The free occurrences of names in an expression, in order, and the names bound behind it. -/
def inExpr (bound : List String) : Value → List String × List String
  | .atom a => (if a.name ∈ bound then [] else [a.name], bound)
  | .list (head :: args) =>
    let inHead := inExpr bound head
    let inArgs := inForm inHead.2 (Binder.ofHead bound head) args
    (inHead.1 ++ inArgs.1, inArgs.2)
  | _ => ([], bound)
termination_by structural e => e
/-- The free occurrences in what follows the head of a list. -/
def inForm (bound : List String) : Binder → List Value → List String × List String
  | .quote, _ => ([], bound)
  | .lambda, formals :: body => ((inBody (parameterNames formals ++ bound) body).1, bound)
  | .bindings, .list pairs :: body =>
    let inPairs := inBindings bound pairs
    (inPairs.1 ++ (inBody inPairs.2 body).1, bound)
  | .declare, .atom a :: init =>
    let inInit := inBody bound init
    (inInit.1, a.name :: inInit.2)
  | _, [] => ([], bound)
  | _, e :: es =>
    let inFirst := inExpr bound e
    let inRest := inBody inFirst.2 es
    (inFirst.1 ++ inRest.1, inRest.2)
termination_by structural _ es => es
/-- The free occurrences in expressions evaluated one after the other. -/
def inBody (bound : List String) : List Value → List String × List String
  | [] => ([], bound)
  | e :: es =>
    let inFirst := inExpr bound e
    let inRest := inBody inFirst.2 es
    (inFirst.1 ++ inRest.1, inRest.2)
termination_by structural es => es
/-- The free occurrences in the bindings of a `let` form; each name is bound from there on. -/
def inBindings (bound : List String) : List Value → List String × List String
  | [] => ([], bound)
  | .list (target :: init) :: rest =>
    let inInit := inBody bound init
    let inRest := inBindings (atomNames [target] ++ inInit.2) rest
    (inInit.1 ++ inRest.1, inRest.2)
  | e :: rest =>
    let inFirst := inExpr bound e
    let inRest := inBindings inFirst.2 rest
    (inFirst.1 ++ inRest.1, inRest.2)
termination_by structural pairs => pairs
end

end Free

/-- The free names of a body with some parameters, each once, in the order of first occurrence. -/
def freeNames (formals : List Atom) (body : List Value) : List String :=
  (Free.inBody (formals.map Atom.name) body).1.eraseDups

/-! ### Making closures -/

/-- What a closure takes along for a name: variables by their contents at this moment. -/
def Environment.capture? (env : Environment) (name : String) : Option Binding :=
  match env.lookup name with
  | some (.var h) => (env.var? h).map .value
  | b => b

/-- What a closure takes along for several names; the first one that stands for nothing is an
error. -/
def Environment.captureAll (env : Environment) : List String → Except Error (Names Binding)
  | [] => .ok []
  | name :: names =>
    match env.capture? name with
    | none => .error (.unbound name)
    | some b => (env.captureAll names).map ((name, b) :: ·)

namespace Lambda

/-- The closure with this signature and body, made in an environment. -/
def build (env : Environment) (s : Signature) (body : List Value) : Except Error Lambda :=
  (env.captureAll (freeNames s.formals body)).map fun captured => ⟨s, captured, body⟩

/-- The parts of a closure form: the head does not matter, parameters follow, then the body. -/
def ofForm : Value → Except Error (Signature × List Value)
  | .list (_ :: formals :: body) => (Signature.ofValue formals).map (·, body)
  | _ => .error (.ofMisfit .notALambdaForm)

/-- The names a closure has taken along, in order. -/
def capturedNames (closure : Lambda) : List String := (Names.sorted closure.captured).map (·.1)

end Lambda

end HostLisp
