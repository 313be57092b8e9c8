import HostLisp.Proofs.Evaluation.Builtins
import HostLisp.Proofs.Evaluation.ScopedEval
import Mathlib

/-!
# Names that are found out late

A closure fails fast if its body evaluates nothing that was not captured or declared on the path
taken.  Making a closure checks less than that: it takes a name for declared behind a form that
declares it only sometimes.
-/

namespace HostLisp

variable {host : Host} {n : Nat} {m : Machine} {late : List String}

/-- A closure in scope fails for no name but a late one, and what it makes is in scope again. -/
theorem Lambda.call_within {closure : Lambda} {actuals : List Value}
    (hclosure : closure.Within (.scoped late)) (hactuals : ∀ a ∈ actuals, a.Within (.scoped late))
    (hdepth : m.depth + n = maxEvalDepth) (hdeepest : m.deepest ≤ maxEvalDepth) :
    (∀ name, name ∉ late → (closure.call (eval host n) actuals m).1 ≠ .error (.unbound name)) ∧
      ∀ v, (closure.call (eval host n) actuals m).1 = .ok v → v.Within (.scoped late) := by
  -- a call does not look at the environment it is made in
  have hready : Machine.Ready (.scoped late) n { m with env := .empty } :=
    ⟨hdepth, hdeepest, Environment.within_empty⟩
  have hsame : (closure.call (eval host n) actuals { m with env := .empty }).1 =
      (closure.call (eval host n) actuals m).1 := by
    unfold Lambda.call
    cases closure.signature.bind (Environment.ofCaptured closure.captured).pushFrame actuals with
    | error e => rfl
    | ok x => rfl
  obtain ⟨-, -, hwithin, hlate⟩ :=
    Lambda.balanced_call_scoped (scoped_eval host late n) hclosure hactuals _ hready
  rw [hsame] at hwithin hlate
  exact ⟨fun name hname hcall => hname (hlate _ hcall name rfl), hwithin⟩

/-- A closure made where forms go by their own names only, with a body that evaluates nothing but what
is captured, a parameter, or declared on every path, never fails because a name is unbound: not in
its own body, and not in closures it is given or makes, which are such closures again.  The names for
which that is not so are the late ones. -/
theorem Lambda.call_ne_unbound {env : Environment} {s : Signature} {body actuals : List Value}
    {closure : Lambda} (henv : env.Within (.scoped late))
    (hbody : ∀ e ∈ body, e.Within (.scoped late))
    (hcovers : Scope.Covers late s.formals (freeNames s.formals body) body)
    (hbuild : Lambda.build env s body = .ok closure)
    (hactuals : ∀ a ∈ actuals, a.Within (.scoped late))
    (hdepth : m.depth + n = maxEvalDepth) (hdeepest : m.deepest ≤ maxEvalDepth) :
    (∀ name, name ∉ late → (closure.call (eval host n) actuals m).1 ≠ .error (.unbound name)) ∧
      ∀ v, (closure.call (eval host n) actuals m).1 = .ok v → v.Within (.scoped late) :=
  Lambda.call_within (Lambda.within_build_scoped henv hbody hcovers hbuild) hactuals hdepth hdeepest

/-- A name that both branches declare. -/
theorem Lambda.call_ne_unbound_both_branches :
    let declare (n : Int64) := Value.list [.ofName "var", .ofName "x", .int n]
    let body := [Value.list [.ofName "if", .ofName "c", declare 1, declare 2], .ofName "x"]
    ∃ closure, Lambda.build .withBuiltins { fixed := [{ name := "c" }] } body = .ok closure ∧
      (closure.call (eval Host.Sample.host maxEvalDepth) [.bool false]
        { env := .withBuiltins }).1 ≠ .error (.unbound "x") := by
  intro declare body
  have hbuild : Lambda.build .withBuiltins { fixed := [{ name := "c" }] } body =
      .ok ⟨{ fixed := [{ name := "c" }] }, [("if", .value (.native ⟨"if", .builtin (.form .choose)⟩)),
        ("var", .value (.native ⟨"var", .builtin (.form .declare)⟩))], body⟩ := by cbv
  refine ⟨_, hbuild, (Lambda.call_ne_unbound (Environment.within_withBuiltins []) ?_ ?_ hbuild ?_ rfl
    (Nat.zero_le _)).1 "x" List.not_mem_nil⟩
  · simp [body, declare, Value.Within, Value.AllWithin, Value.ofName]
  · decide
  · simp [Value.Within]

/-- A name that one branch declares: the closure is made, and fails late where the other is taken. -/
theorem Lambda.call_unbound_one_branch :
    let body := [Value.list [.ofName "if", .ofName "c",
      .list [.ofName "var", .ofName "x", .int 1], .nil], .ofName "x"]
    ∃ closure, Lambda.build .withBuiltins { fixed := [{ name := "c" }] } body = .ok closure ∧
      (closure.call (eval Host.Sample.host maxEvalDepth) [.bool false]
        { env := .withBuiltins }).1 = .error (.unbound "x") := by
  intro body
  refine ⟨⟨{ fixed := [{ name := "c" }] }, [("if", .value (.native ⟨"if", .builtin (.form .choose)⟩)),
    ("var", .value (.native ⟨"var", .builtin (.form .declare)⟩))], body⟩, ?_, ?_⟩
  · cbv
  · cbv

end HostLisp
