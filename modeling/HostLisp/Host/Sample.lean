import HostLisp.Toolkit.Time

/-!
# A sample host

Operations, callables and deferred computations of a host that exercises all ways of supplying them:
typed operations on every type of parameter, callables that look at their expressions or evaluate
them, and computations that count, evaluate or fail.  An unknown key means an operation without
parameters, a callable or a computation whose result is nil.
-/

namespace HostLisp.Host.Sample

/-! ### Typed operations -/

/-- An integer that wraps around at 64 bits. -/
def wrapping (n : Int) : Except String Value := .ok (.int (Int64.ofInt n))

/-- The typed operations by key. -/
def operation : String → Operation
  | "forty-two" => ⟨[], fun () => .ok (.int 42)⟩
  | "fail" => ⟨[], fun () => .error "deliberate failure"⟩
  | "half" => ⟨[.float], fun (x, ()) => .ok (.float (x / 2))⟩
  | "count" => ⟨[.list], fun (items, ()) => wrapping items.length⟩
  | "or-default" => ⟨[.optional .int], fun (n, ()) => .ok (.int (n.getD (-1)))⟩
  | "describe" => ⟨[.value], fun (v, ()) => .ok (.string v.kindName)⟩
  | "same-time" => ⟨[.time], fun (t, ()) => .ok (.time t)⟩
  | "same-duration" => ⟨[.duration], fun (d, ()) => .ok (.duration d)⟩
  | "negate" => ⟨[.bool], fun (b, ()) => .ok (.bool !b)⟩
  | "add2" => ⟨[.int, .int], fun (a, b, ()) => .ok (.int (a + b))⟩
  | "safe-div" => ⟨[.int, .int], fun (a, b, ()) =>
      if b = 0 then .error "division by zero" else wrapping (a.toInt.tdiv b.toInt)⟩
  | "greater" => ⟨[.int, .int], fun (a, b, ()) => .ok (.bool (decide (b < a)))⟩
  | "repeat" => ⟨[.string, .int], fun (s, n, ()) =>
      .ok (.string (String.join (List.replicate (min n.toInt.toNat 10) s)))⟩
  | "pick" => ⟨[.bool, .value, .value], fun (b, v, w, ()) => .ok (if b then v else w)⟩
  | "sum4" => ⟨[.int, .optional .int, .int, .optional .int], fun (a, b, c, d, ()) =>
      if b.isNone && d.isNone then .ok .nil
      else .ok (.int (a + b.getD 0 + c + d.getD 0))⟩
  | "five" => ⟨[.int, .float, .bool, .string, .list], fun (n, x, b, s, items, ()) =>
      .ok (.list (.int n :: .float x :: .bool b :: .string s :: items))⟩
  | _ => ⟨[], fun () => .ok .nil⟩

/-! ### Callables on expressions -/

/-- The callables by key. -/
def raw (key : String) (datum : Value) (eval : Evaluator) (exprs : List Value) : Run Value :=
  match key with
  | "arg-count" => return .int (Int64.ofNat exprs.length)
  | "first-expr" => return exprs.headD .nil
  | "exprs" => return .list exprs
  | "const" => return datum
  | "later" => do
    let identity ← Run.freshIdentity
    return .deferred ⟨identity, "const", datum⟩
  | "eval-twice" => do
    let once ← eval (exprs.headD .nil)
    eval once
  | _ => return .nil

/-! ### Deferred computations -/

/-- The deferred computations by key. -/
def deferred (key : String) (identity : Nat) (datum : Value) (eval : Evaluator) : Run Value :=
  match key with
  | "const" => return datum
  | "counter" => do
    let w ← Run.world
    let n := w.counter identity + 1
    Run.setWorld (w.setCounter identity n)
    return .int (Int64.ofNat n)
  | "eval" => eval datum
  | "fail" => Run.fail (.ofFailure (.host "deferred failure"))
  | _ => return .nil

/-- The sample host, with the time toolkit. -/
def host : Host := Toolkit.Time.extend { operation, raw, deferred }

end HostLisp.Host.Sample
