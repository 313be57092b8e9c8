import HostLisp.Arity

/-!
# The built-in operations

The operations every global environment starts with, by name.  A function works on the values of
its arguments; a form receives the expressions and decides itself what to evaluate.  `registry`
lists them in a fixed order, each with its names (the first one is its id) and its arity.
-/

namespace HostLisp

/-- Arithmetic on integers and floats. -/
inductive Arithmetic where
  | add | sub | mul | div
deriving DecidableEq, Repr

/-- An order relation, all of them drawn from the strict one: `swapped` exchanges the operands,
`orEqual` holds for equal operands as well, and a `lenient` relation is false instead of an error
when an operand is nil. -/
structure Comparison where
  lenient : Bool
  swapped : Bool
  orEqual : Bool
deriving DecidableEq, Repr

/-- Operations on values. -/
inductive Primitive where
  | arithmetic (op : Arithmetic)
  | comparison (relation : Comparison)
  | equality (negated lenient : Bool)
  /-- Three-way comparison. -/
  | order
  | not
  | list
deriving DecidableEq, Repr

/-- Operations on expressions. -/
inductive Form where
  | quote
  | lambda
  /-- Bindings for a body. -/
  | bindings
  /-- Declaring a variable. -/
  | declare
  /-- Assigning to a variable. -/
  | assign
  /-- Choosing by a condition. -/
  | choose
  | conjunction
  | disjunction
deriving DecidableEq, Repr

/-- A built-in operation. -/
inductive Builtin where
  | primitive (p : Primitive)
  | form (f : Form)
deriving DecidableEq, Repr

/-- The name under which list elements are compared: a script may bind it anew. -/
def comparator (lenient : Bool) : String := if lenient then "<?" else "<"

namespace Primitive

/-- The names of a function, its id first. -/
def names : Primitive → List String
  | .arithmetic .add => ["+", "add"]
  | .arithmetic .sub => ["-", "sub"]
  | .arithmetic .mul => ["*", "mul"]
  | .arithmetic .div => ["/", "div"]
  | .comparison ⟨false, false, false⟩ => ["<", "less"]
  | .comparison ⟨true, false, false⟩ => ["<?"]
  | .comparison ⟨false, false, true⟩ => ["<="]
  | .comparison ⟨true, false, true⟩ => ["<=?"]
  | .comparison ⟨false, true, false⟩ => [">"]
  | .comparison ⟨true, true, false⟩ => [">?"]
  | .comparison ⟨false, true, true⟩ => [">="]
  | .comparison ⟨true, true, true⟩ => [">=?"]
  | .equality false false => ["==", "equal"]
  | .equality false true => ["==?"]
  | .equality true false => ["!="]
  | .equality true true => ["!=?"]
  | .order => ["cmp"]
  | .not => ["not"]
  | .list => ["list"]

/-- How many operands a function takes. -/
def arity : Primitive → Arity
  | .arithmetic .add | .arithmetic .mul | .list => .any
  | .arithmetic .sub | .arithmetic .div | .equality .. => .atLeast 1
  | .comparison _ | .order => .exactly 2
  | .not => .exactly 1

end Primitive

namespace Form

/-- The names of a form, its id first. -/
def names : Form → List String
  | .quote => ["quote"]
  | .lambda => ["lambda"]
  | .bindings => ["let"]
  | .declare => ["var"]
  | .assign => ["set"]
  | .choose => ["if"]
  | .conjunction => ["and"]
  | .disjunction => ["or"]

/-- How many expressions a form takes. -/
def arity : Form → Arity
  | .quote => .exactly 1
  | .assign => .exactly 2
  | .choose => .atLeast 2
  | _ => .atLeast 1

end Form

namespace Builtin

/-- The names of an operation, its id first. -/
def names : Builtin → List String
  | .primitive p => p.names
  | .form f => f.names

/-- The first name of an operation. -/
def id (b : Builtin) : String := b.names.headD ""

/-- How many arguments an operation takes. -/
def arity : Builtin → Arity
  | .primitive p => p.arity
  | .form f => f.arity

/-- Whether an operation receives its arguments as expressions. -/
def isForm : Builtin → Bool
  | .primitive _ => false
  | .form _ => true

/-- All operations in their order. -/
def registry : List Builtin :=
  [.primitive (.arithmetic .add), .primitive (.arithmetic .sub), .primitive (.arithmetic .mul),
    .primitive (.arithmetic .div),
    .primitive (.comparison ⟨false, false, false⟩), .primitive (.comparison ⟨true, false, false⟩),
    .primitive (.comparison ⟨false, false, true⟩), .primitive (.comparison ⟨true, false, true⟩),
    .primitive (.comparison ⟨false, true, false⟩), .primitive (.comparison ⟨true, true, false⟩),
    .primitive (.comparison ⟨false, true, true⟩), .primitive (.comparison ⟨true, true, true⟩),
    .primitive (.equality false false), .primitive (.equality false true),
    .primitive (.equality true false), .primitive (.equality true true),
    .primitive .order, .primitive .not, .primitive .list,
    .form .quote, .form .lambda, .form .bindings, .form .declare, .form .assign, .form .choose,
    .form .conjunction, .form .disjunction]

/-- The operation with this name. -/
def find? (name : String) : Option Builtin := registry.find? fun b => name ∈ b.names

/-- How an operation is implemented, as shown to a developer. -/
def inspectKind (b : Builtin) : String :=
  if b.isForm then "SpecialForm(<fn>)" else "Function(<fn>)"

end Builtin

end HostLisp
