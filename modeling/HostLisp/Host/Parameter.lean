import HostLisp.Error

/-!
# Parameters of host operations

A typed operation of the host takes values of the host's own types.  A `Parameter` names such a
type: it has a descriptor, against which an argument is checked, and a conversion of the arguments that
the descriptor admits.  An optional parameter takes nil as nothing.
-/

namespace HostLisp

/-- The types of the host that arguments are converted to. -/
inductive Parameter where
  | int | float | bool | string | list | time | duration
  /-- Any value as it is, nil included. -/
  | value
  | optional (p : Parameter)
deriving DecidableEq, Repr

namespace Parameter

/-- What an argument is converted to. -/
@[reducible] def Carrier : Parameter → Type
  | int => Int64
  | float => Float
  | bool => Bool
  | string => String
  | list => List Value
  | time => Instant
  | duration => Duration
  | value => Value
  | optional p => Option p.Carrier

/-- The type an argument must have. -/
def descriptor : Parameter → Ty
  | int => { kind := .int }
  | float => { kind := .float }
  | bool => { kind := .bool }
  | string => { kind := .string }
  | list => { kind := .list }
  | time => { kind := .time }
  | duration => { kind := .duration }
  | value => { kind := .any, optional := true }
  | optional p => p.descriptor.orNil

/-- Converts an argument. -/
def convert : (p : Parameter) → Value → Except Error p.Carrier
  | int, .int n => .ok n
  | float, .float x => .ok x
  | bool, .bool b => .ok b
  | string, .string s => .ok s
  | list, .list items => .ok items
  | time, .time t => .ok t
  | duration, .duration d => .ok d
  | value, v => .ok v
  | optional _, .nil => .ok none
  | optional p, v => (p.convert v).map some
  | p, v => .error (.ofMisfit (.conversion p.descriptor v))

/-- A converted argument as a value again. -/
def toValue : (p : Parameter) → p.Carrier → Value
  | int, n => .int n
  | float, x => .float x
  | bool, b => .bool b
  | string, s => .string s
  | list, items => .list items
  | time, t => .time t
  | duration, d => .duration d
  | value, v => v
  | optional _, none => .nil
  | optional p, some a => p.toValue a

/-- The arguments for a row of parameters. -/
@[reducible] def Arguments : List Parameter → Type
  | [] => Unit
  | p :: ps => p.Carrier × Arguments ps

/-- Converts a row of arguments; a missing one counts as nil. -/
def convertAll : (ps : List Parameter) → List Value → Except Error (Arguments ps)
  | [], _ => .ok ()
  | p :: ps, vs => do
    let a ← p.convert (vs.headD .nil)
    let as ← convertAll ps vs.tail
    return (a, as)

end Parameter

end HostLisp
