import HostLisp.Builtin
import HostLisp.Time.Duration
import HostLisp.Time.Instant
import HostLisp.Ty

/-!
# Values

One type holds what is read from source (literals, atoms, lists, quotes) and what evaluation adds:
closures, callables of the host, deferred computations, times and opaque objects of the host.

What a host supplies is referred to by a key, and the host says what the key means (`Host`); so a
value is plain data.  Closures, deferred computations and host objects have an identity, given to
them when they are made: they equal only themselves.
-/

namespace HostLisp

/-- A name with its annotation. -/
structure Atom where
  name : String
  ty : Ty := Ty.any
deriving DecidableEq

instance : Inhabited Atom := ⟨{ name := "" }⟩

/-- The name of the marker for a variable number of arguments. -/
def variadicMarker : String := "..."

/-- The formal parameters of a callable: fixed ones, and the type of all further arguments if any
are taken. -/
structure Signature where
  fixed : List Atom
  rest : Option Ty := none
deriving DecidableEq

/-- The address of a cell that holds the contents of a variable. -/
structure Handle where
  index : Nat
deriving DecidableEq, Repr

/-- An opaque object of the host. -/
structure HostObject where
  typeName : String
  identity : Nat
deriving DecidableEq

mutual
/-- A value of the language; also a node of its source. -/
inductive Value where
  | int (n : Int64)
  | float (x : Float)
  | bool (b : Bool)
  | char (c : Char)
  | string (s : String)
  | nil
  | atom (a : Atom)
  | list (items : List Value)
  | quote (inner : Value)
  | lambda (identity : Nat) (closure : Lambda)
  | deferred (task : Deferred)
  | native (callable : Native)
  | time (t : Instant)
  | duration (d : Duration)
  | host (object : HostObject)
/-- A closure: parameters, the bindings of its free names, and a body to evaluate in order. -/
structure Lambda where
  signature : Signature
  captured : List (String × Binding)
  body : List Value
/-- What a name can be bound to. -/
inductive Binding where
  | value (v : Value)
  | var (h : Handle)
  | type (ty : Ty)
  | toolkit (kit : Toolkit)
/-- A named collection of values, reached as `name.member`. -/
structure Toolkit where
  name : String
  members : List (String × Value)
/-- A callable that receives its arguments as expressions; `id` tells it from others. -/
structure Native where
  id : String
  body : Callable
/-- What a native does. -/
inductive Callable where
  | builtin (op : Builtin)
  /-- The typed operation that the host has under a key. -/
  | operation (key : String)
  /-- The untyped callable that the host has under a key, with the datum it was made with. -/
  | raw (key : String) (datum : Value)
/-- A computation without arguments that the host has under a key, with its datum. -/
structure Deferred where
  identity : Nat
  key : String
  datum : Value
end

instance : Inhabited Value := ⟨.nil⟩

namespace Value

/-- A name without an annotation. -/
def ofName (name : String) : Value := .atom { name }

/-- The absent value. -/
def isNil : Value → Bool
  | .nil => true
  | _ => false

/-- Values that can be applied. -/
def isCallable : Value → Bool
  | .lambda .. | .native _ | .deferred _ => true
  | _ => false

/-- A short word for what a value is. -/
def kindName : Value → String
  | .int _ => "int"
  | .float _ => "float"
  | .bool _ => "bool"
  | .char _ => "char"
  | .string _ => "string"
  | .nil => "nil"
  | .atom _ => "atom"
  | .list _ => "list"
  | .quote _ => "quote"
  | .lambda .. => "lambda"
  | .deferred _ => "task"
  | .native _ => "native"
  | .time _ => "time"
  | .duration _ => "duration"
  | .host _ => "host"

/-! ### Equality -/

mutual
/-- Structural equality.  Floats are equal as numbers; closures, deferred computations and objects
of the host by identity, natives by id.  Values of different kinds differ. -/
def same : Value → Value → Bool
  | .int a, .int b => a == b
  | .float a, .float b => a == b
  | .bool a, .bool b => a == b
  | .char a, .char b => a == b
  | .string a, .string b => a == b
  | .nil, .nil => true
  | .atom a, .atom b => a == b
  | .list a, .list b => sameItems a b
  | .quote a, .quote b => same a b
  | .lambda a _, .lambda b _ => a == b
  | .deferred a, .deferred b => a.identity == b.identity
  | .native a, .native b => a.id == b.id
  | .time a, .time b => a == b
  | .duration a, .duration b => a == b
  | .host a, .host b => a == b
  | _, _ => false
termination_by structural v => v
/-- Structural equality of lists, item by item. -/
def sameItems : List Value → List Value → Bool
  | [], [] => true
  | a :: as, b :: bs => same a b && sameItems as bs
  | _, _ => false
termination_by structural vs => vs
end

instance : BEq Value := ⟨same⟩

end Value

end HostLisp
