import HostLisp.Reader.Error
import HostLisp.Value.Admission
import HostLisp.Value.Printer

/-!
# Errors

What can go wrong, by cause.  Two kinds of errors, values that do not fit and evaluations that fail,
also carry a trail: the expressions and closures they came through, innermost first.  The wording of
every error is in `Error.message`.
-/

namespace HostLisp

/-- Kinds of operands that operations ask for. -/
inductive OperandKind where
  | integer | float | number | string | time | duration | list | boolean
deriving DecidableEq, Repr

namespace OperandKind

/-- All kinds of operands. -/
def all : List OperandKind :=
  [integer, float, number, string, time, duration, list, boolean]

/-- The word for a kind of operands. -/
def text : OperandKind → String
  | integer => "integer"
  | float => "float"
  | number => "number"
  | string => "string"
  | time => "time"
  | duration => "duration"
  | list => "list"
  | boolean => "boolean"

end OperandKind

/-- A value or a form that does not fit where it stands. -/
inductive Misfit where
  | unexpectedArgument (v : Value)
  | notAParameterList (v : Value)
  | notAParameter (v : Value)
  | notApplicable (v : Value)
  | notComparable (left right : Value)
  /-- What is bound to a comparator answered with something else than a boolean. -/
  | answerNotBoolean (comparator : String) (v : Value)
  | typeAsValue (name : String) (ty : Ty)
  | toolkitAsValue (name : String)
  /-- A `let` without a list of bindings. -/
  | noBindings
  | notABinding (v : Value)
  | declaredNotAName
  | assignedNotAName
  | notAVariable (name : String)
  | conversion (expected : Ty) (v : Value)
  | notALambdaForm

/-- Why an evaluation fails. -/
inductive Failure where
  | depthLimit
  | overflow (op : Arithmetic)
  | divisionByZero
  /-- The cell behind a handle has been released. -/
  | deadHandle
  /-- The cell behind a name has been released. -/
  | deadVariable (name : String)
  | duplicateParameter (name : String)
  | variadicNotLast
  /-- The host reported a failure. -/
  | host (message : String)

/-- A place an error came through. -/
inductive Passage where
  | evaluating (expr : Value)
  | inLambda (body : List Value)

/-- An error. -/
inductive Error where
  | reading (e : ReadError)
  /-- A value that the type of a name does not admit. -/
  | typeSign (formal : String) (expected : Ty) (actual : Value)
  | arity (expected : Arity) (got : Nat) (expression : Option String)
  | unbound (name : String)
  | operand (expected : OperandKind) (found : Value)
  | unordered (left right : Value)
  | misfit (cause : Misfit) (trail : List Passage)
  | failure (cause : Failure) (trail : List Passage)

/-- The nesting of evaluations that is allowed. -/
def maxEvalDepth : Nat := 128

namespace Misfit

/-- The wording of a misfit. -/
def text : Misfit → String
  | unexpectedArgument v => "Unexpected argument " ++ v.text
  | notAParameterList v => "Parameter list must be a list, got " ++ v.text
  | notAParameter v => "Parameters must be atoms, got " ++ v.text
  | notApplicable v => "Cannot apply non-function: " ++ v.text
  | notComparable left right => "Cannot compare " ++ left.text ++ " and " ++ right.text
  | answerNotBoolean comparator v => comparator ++ " must return a boolean, got " ++ v.text
  | typeAsValue name ty => name ++ " names the type " ++ ty.text ++ ", not a value"
  | toolkitAsValue name => name ++ " is a toolkit; use " ++ name ++ ".<member>"
  | noBindings => "let requires a list of bindings"
  | notABinding v => "let binding must be (name value), got " ++ v.text
  | declaredNotAName => "var requires an atom"
  | assignedNotAName => "set requires an atom"
  | notAVariable name => name ++ " is not a Var"
  | conversion expected v => "expected " ++ expected.text ++ ", got " ++ v.text
  | notALambdaForm => "not a lambda form"

end Misfit

namespace Failure

/-- The wording of a failure. -/
def text : Failure → String
  | depthLimit => "Evaluation depth limit exceeded (max: " ++ toString maxEvalDepth ++ ")"
  | overflow op => "Integer overflow in " ++ (Builtin.primitive (.arithmetic op)).id
  | divisionByZero => "division by zero"
  | deadHandle => "Var is no longer live"
  | deadVariable name => "Var " ++ name ++ " is no longer live"
  | duplicateParameter name => "Duplicate parameter name: " ++ name
  | variadicNotLast => variadicMarker ++ " must be the last parameter"
  | host message => message

end Failure

/-- A passage on a line of its own. -/
def Passage.text : Passage → String
  | evaluating expr => "\n  Context: while evaluating: " ++ expr.text
  | inLambda body => "\n  In lambda: " ++ Value.textOfItems body

namespace Error

/-- A misfit where it occurs. -/
def ofMisfit (cause : Misfit) : Error := .misfit cause []

/-- A failure where it occurs. -/
def ofFailure (cause : Failure) : Error := .failure cause []

/-- The error after passing a place; only two kinds of errors keep a trail. -/
def through (p : Passage) : Error → Error
  | misfit cause trail => misfit cause (trail ++ [p])
  | failure cause trail => failure cause (trail ++ [p])
  | e => e

/-- An error in words. -/
def message : Error → String
  | reading e => "ParseError: " ++ e.text
  | typeSign formal expected actual =>
    "TypeSignError: " ++ actual.text ++ " does not match " ++ formal ++ "::" ++ expected.text
  | arity expected got none =>
    "ArityError: expected " ++ expected.text ++ " arguments but got " ++ toString got
  | arity expected got (some expression) =>
    "ArityError: expression " ++ expression ++ ": expected " ++ expected.text ++
      " arguments, got " ++ toString got
  | unbound name => "Unbound name: " ++ name
  | operand expected found => found.text ++ " is not a valid " ++ expected.text
  | unordered left right =>
    "ComparisonError: no defined ordering between " ++ left.text ++ " and " ++ right.text
  | misfit cause trail => "Type error: " ++ cause.text ++ String.join (trail.map Passage.text)
  | failure cause trail =>
    "EvaluationError: " ++ cause.text ++ String.join (trail.map Passage.text)

end Error

/-- `count` arguments are allowed, or the error that says how many are. -/
def Arity.check (arity : Arity) (count : Nat) : Except Error Unit :=
  if arity.accepts count then .ok () else .error (.arity arity count none)

/-- The value may be stored under a name of this type, or the error that says why not. -/
def checkFormal (name : String) (ty : Ty) (v : Value) : Except Error Unit :=
  if ty.admits v then .ok () else .error (.typeSign name ty v)

theorem Arity.check_eq_ok_iff {arity : Arity} {count : Nat} :
    arity.check count = .ok () ↔ arity.accepts count = true := by
  unfold Arity.check
  split
  · next h => simp [h]
  · next h => simp [h]

theorem checkFormal_eq_ok_iff {name : String} {ty : Ty} {v : Value} :
    checkFormal name ty v = .ok () ↔ ty.admits v = true := by
  unfold checkFormal
  split
  · next h => simp [h]
  · next h => simp [h]

end HostLisp
