import HostLisp.Host.Parameter
import HostLisp.Machine

/-!
# Hosts

A host is the program that embeds the language.  It gives a meaning to the keys by which values
refer to it: typed operations, whose arguments are evaluated, checked and converted for them; untyped
callables, which receive their arguments as expressions; and deferred computations.  The last two
are handed the evaluator, so that they can evaluate what they like.
-/

namespace HostLisp

/-- A typed operation: parameters, and what it does with converted arguments, which may fail with a
message. -/
structure Operation where
  parameters : List Parameter
  perform : Parameter.Arguments parameters → Except String Value

namespace Operation

/-- The signature that arguments are checked against. -/
def signature (op : Operation) : Signature :=
  .positional (op.parameters.map Parameter.descriptor)

/-- Checks and converts evaluated arguments, then performs the operation. -/
def call (op : Operation) (actuals : List Value) : Except Error Value := do
  let matched ← op.signature.matchArguments actuals
  let arguments ← Parameter.convertAll op.parameters matched
  match op.perform arguments with
  | .ok v => return v
  | .error message => throw (.ofFailure (.host message))

end Operation

/-- How expressions are evaluated. -/
abbrev Evaluator := Value → Run Value

/-- The meaning of the keys by which values refer to the host. -/
structure Host where
  /-- Typed operations. -/
  operation : String → Operation
  /-- Untyped callables, by the datum they were made with and the expressions they receive. -/
  raw : String → Value → Evaluator → List Value → Run Value
  /-- Deferred computations, by their identity and the datum they were made with. -/
  deferred : String → Nat → Value → Evaluator → Run Value

namespace Deferred

/-- Runs a deferred computation. -/
def force (task : Deferred) (host : Host) (eval : Evaluator) : Run Value :=
  host.deferred task.key task.identity task.datum eval

end Deferred

end HostLisp
