import HostLisp.Error

/-!
# Arithmetic

`+`, `-`, `*` and `/` fold their operands from the left.  Integers are computed exactly and have to
fit in 64 bits at every step; if there is a float among the operands, all are floats.
-/

namespace HostLisp

/-- An integer as a value of 64 bits, if it fits. -/
def int64? (n : Int) : Option Int64 :=
  if -9_223_372_036_854_775_808 ≤ n ∧ n < 9_223_372_036_854_775_808 then some (Int64.ofInt n) else none

/-- The float nearest to an integer; between two of them the even one. -/
def widen (n : Int64) : Float := .ofModel (.ofInt64 n)

namespace Value

/-- An integer. -/
def asInt? : Value → Option Int64
  | .int n => some n
  | _ => none

/-- A number as a float. -/
def asFloat? : Value → Option Float
  | .int n => some (widen n)
  | .float x => some x
  | _ => none

end Value

namespace Arithmetic

/-- The result for no operands at all, where there is one. -/
def identity? : Arithmetic → Option Int64
  | add => some 0
  | mul => some 1
  | sub | div => none

/-- The exact result on integers; division rounds toward zero. -/
def onInt : Arithmetic → Int → Int → Int
  | add, a, b => a + b
  | sub, a, b => a - b
  | mul, a, b => a * b
  | div, a, b => a.tdiv b

/-- One step on integers of 64 bits. -/
def step (op : Arithmetic) (a b : Int64) : Except Error Int64 :=
  if op = div ∧ b = 0 then .error (.ofFailure .divisionByZero)
  else
    match int64? (op.onInt a.toInt b.toInt) with
    | some n => .ok n
    | none => .error (.ofFailure (.overflow op))

/-- One step on floats. -/
def onFloat : Arithmetic → Float → Float → Float
  | add, a, b => a + b
  | sub, a, b => a - b
  | mul, a, b => a * b
  | div, a, b => a / b

/-- All steps on integers, from the left. -/
def foldInts (op : Arithmetic) (first : Int64) : List Int64 → Except Error Int64
  | [] => .ok first
  | n :: ns =>
    match op.step first n with
    | .ok m => foldInts op m ns
    | .error e => .error e

/-- The operands as floats, or the error for the first one that is no number. -/
def floats : List Value → Except Error (List Float)
  | [] => .ok []
  | v :: vs =>
    match v.asFloat? with
    | some x => (floats vs).map (x :: ·)
    | none => .error (.operand .number v)

/-- The operation on its operands. -/
def perform (op : Arithmetic) (operands : List Value) : Except Error Value :=
  match operands.mapM Value.asInt? with
  | some (n :: ns) => (foldInts op n ns).map .int
  | some [] =>
    match op.identity? with
    | some n => .ok (.int n)
    | none => .error (.arity (.atLeast 1) 0 none)
  | none =>
    (floats operands).map fun
      | [] => .float 0
      | x :: xs => .float (xs.foldl op.onFloat x)

end Arithmetic

end HostLisp
