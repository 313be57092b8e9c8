import HostLisp.Environment
import HostLisp.Parsing.Combinators

/-!
# Signatures

A signature checks the arguments of a call and binds them to variables.  The check is a parser over
the evaluated arguments: one validator for each fixed parameter, a repeated one for the variadic
marker, and the end of the arguments.  A missing or a superfluous argument is reported with the
arity of the whole signature; an argument of the wrong type is reported by the parameter's name.
-/

namespace HostLisp

open Parsing

/-! ### Parsers over arguments -/

/-- Parsers of evaluated arguments. -/
abbrev ArgumentParser (α : Type) := Parser (Cursor Value) Error α

/-- The error for arguments that end too early. -/
def Error.missingArgument (c : Cursor Value) : Error := .arity (.atLeast (c.taken + 1)) c.taken none

instance : InputError (Cursor Value) Error where
  endOfInput := Error.missingArgument
  trailing c := .arity (.exactly c.taken) (c.taken + c.rest.length) none
  unexpected c :=
    match c.rest with
    | [] => Error.missingArgument c
    | v :: _ => .ofMisfit (.unexpectedArgument v)

namespace Signature

/-! ### Making signatures -/

/-- Adds parameters one by one to the fixed ones seen so far. -/
def extend (seen : List Atom) : List Atom → Except Error Signature
  | [] => .ok { fixed := seen }
  | f :: fs =>
    if seen.any fun g => g.name = f.name then .error (.ofFailure (.duplicateParameter f.name))
    else if f.name = variadicMarker then
      if fs.isEmpty then .ok { fixed := seen, rest := some f.ty }
      else .error (.ofFailure .variadicNotLast)
    else extend (seen ++ [f]) fs

/-- The signature with these parameters: names differ, and the marker comes last. -/
def ofFormals (formals : List Atom) : Except Error Signature := extend [] formals

/-- The atoms of a parameter list. -/
def parameters : List Value → Except Error (List Atom)
  | [] => .ok []
  | .atom a :: vs => (parameters vs).map (a :: ·)
  | v :: _ => .error (.ofMisfit (.notAParameter v))

/-- The signature written as a list of atoms. -/
def ofValue : Value → Except Error Signature
  | .list items => do ofFormals (← parameters items)
  | v => .error (.ofMisfit (.notAParameterList v))

/-- The signature written as a text. -/
def ofText (text : String) : Except Error Signature :=
  match readOne text with
  | .ok v => ofValue v
  | .error e => .error (.reading e)

/-- Parameters `arg1`, `arg2`, … of these types. -/
def positional (tys : List Ty) : Signature where
  fixed := tys.mapIdx fun i ty => ⟨"arg" ++ String.ofList (Decimal.digits (i + 1)), ty⟩

/-- How many arguments are taken. -/
def arity (s : Signature) : Arity :=
  if s.rest.isSome then .atLeast s.fixed.length else .exactly s.fixed.length

/-! ### Checking arguments -/

/-- One argument for one parameter. -/
def one (formal : Atom) : ArgumentParser Value :=
  satisfyMap fun v => (checkFormal formal.name formal.ty v).map fun _ => v

/-- All further arguments as a list. -/
def further (ty : Ty) : ArgumentParser Value :=
  Value.list <$> (manyTill (one ⟨variadicMarker, ty⟩) eof : ArgumentParser (List Value))

/-- A validator for each parameter. -/
def validators (s : Signature) : List (ArgumentParser Value) :=
  s.fixed.map one ++ (s.rest.map further).toList

/-- One value for each parameter; the marker's value is the list of all further arguments. -/
def matchArguments (s : Signature) (actuals : List Value) : Except Error (List Value) :=
  match terminated (inOrder s.validators) eof (Cursor.ofList actuals) with
  | .ok (values, _) => .ok values
  | .error failure =>
    match failure.error with
    | .arity .. => .error (.arity s.arity actuals.length none)
    | e => .error e

/-- Checks arguments without binding them. -/
def check (s : Signature) (actuals : List Value) : Except Error Unit :=
  (s.matchArguments actuals).map fun _ => ()

/-! ### Binding arguments -/

/-- The names and types of the variables of an activation: the marker's variable holds a list. -/
def cellTypes (s : Signature) : List (String × Ty) :=
  s.fixed.map (fun a => (a.name, a.ty)) ++
    (s.rest.map fun ty => (variadicMarker, Ty.sliceOf ty)).toList

/-- Makes variables one by one in the innermost frame. -/
def allocate (env : Environment) :
    List ((String × Ty) × Value) → Except Error (List (String × Handle) × Environment)
  | [] => .ok ([], env)
  | ((name, ty), v) :: rest => do
    let (h, env) ← env.defineVar name ty v
    let (bound, env) ← allocate env rest
    return ((name, h) :: bound, env)

/-- Checks the arguments, then makes one variable for each parameter in the innermost frame. -/
def bind (s : Signature) (env : Environment) (actuals : List Value) :
    Except Error (List (String × Handle) × Environment) := do
  let values ← s.matchArguments actuals
  allocate env (s.cellTypes.zip values)

end Signature

end HostLisp
