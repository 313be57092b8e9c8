import HostLisp.Host.Sample
import HostLisp.Proofs.Evaluation.Simulation

/-!
# Evaluation is balanced

Balance is kept by everything that evaluation is made of, so every part of the evaluator is balanced
if the evaluator it is handed is, and that is what the recursion on the levels left needs.  Two things
are asked of the host: that what its operations return stays in the repertoire, and that its deferred
computations change an environment only by evaluating.
-/

namespace HostLisp

/-- From expressions in the repertoire the evaluator makes values in it, in balance. -/
def Evaluator.Balanced (R : Repertoire) (n : Nat) (eval : Evaluator) : Prop :=
  ∀ e, e.Within R → Run.Balanced R n (eval e) (Value.Within R)

/-- The host's part of a repertoire: all closures and no callables that are handed expressions;
typed operations whose results are in the repertoire; and deferred computations that are balanced if
the evaluator they are handed is, so that they do not touch an environment themselves. -/
structure Host.Serves (host : Host) (R : Repertoire) : Prop where
  closure : ∀ c, R.closure c
  named : ∀ name f, ¬ R.named name f
  ordinary : ∀ name, R.ordinary name
  raw : ∀ id key datum, ¬ R.native ⟨id, .raw key datum⟩
  operation : ∀ id key actuals v, R.native ⟨id, .operation key⟩ → (∀ a ∈ actuals, a.Within R) →
    (host.operation key).call actuals = .ok v → v.Within R
  task : ∀ t n eval, R.task t → Evaluator.Balanced R n eval →
    Run.Balanced R n (t.force host eval) (Value.Within R)

/-! ### Variables, sequences and closures -/

section
variable {R : Repertoire} {n : Nat}

theorem Form.balanced_declareVar {name : String} {ty : Ty} {v : Value} (hname : R.ordinary name)
    (hv : v.Within R) : Run.Balanced R n (Form.declareVar name ty v) fun _ => True := by
  refine .update_map (fun env c henv h => ?_) fun _ _ _ => trivial
  exact ⟨henv.defineVar hname hv h, Environment.keeps_defineVar h, trivial⟩

theorem Form.balanced_assign {handle : Handle} {v : Value} (hv : v.Within R) :
    Run.Balanced R n (Run.update fun env => (env.setVar handle v).map fun env => (v, env))
      (Value.Within R) := by
  refine .update_map (fun env c henv h => ?_) fun _ _ _ => trivial
  exact ⟨henv.setVar hv h, Environment.keeps_setVar h, hv⟩

/-- Balance is kept by everything that evaluation is made of. -/
def Simulation.balancing (R : Repertoire) (n : Nat) : Simulation R where
  toCongruence := .balancing R n fun _ => True
  any _ := trivial
  through _ _ _ hx := .through hx fun _ => id
  lookup := .lookup
  freshIdentity := .freshIdentity
  declare := Form.balanced_declareVar
  assign := Form.balanced_assign
  inFrame := .inFrame
  inActivation _ := .inEnvironment

variable {eval : Evaluator} (heval : Evaluator.Balanced R n eval)
include heval

theorem balanced_evalAll {es : List Value} (hes : ∀ e ∈ es, e.Within R) :
    Run.Balanced R n (evalAll eval es) fun vs => ∀ v ∈ vs, v.Within R :=
  @Simulation.rel_evalAll R (.balancing R n) eval eval heval es hes

theorem balanced_evalSequence {last : Value} {es : List Value} (hlast : last.Within R)
    (hes : ∀ e ∈ es, e.Within R) : Run.Balanced R n (evalSequence eval last es) (Value.Within R) :=
  @Simulation.rel_evalSequence R (.balancing R n) eval eval heval last es hlast hes

theorem Form.balanced_bindAll (hordinary : ∀ name, R.ordinary name) {pairs : List Value}
    (hpairs : ∀ p ∈ pairs, p.Within R) :
    Run.Balanced R n (Form.bindAll eval pairs) fun _ => True :=
  @Simulation.rel_bindAll R (.balancing R n) eval eval heval hordinary pairs hpairs

end

/-! ### Applications -/

section
variable {host : Host} {R : Repertoire} {level : Level}

variable (hhost : host.Serves R) (heval : Evaluator.Balanced R level.remaining level.eval)
include hhost heval

theorem Host.Serves.levels : (Simulation.balancing R level.remaining).Levels host level level where
  closure := hhost.closure
  named := hhost.named
  ordinary := hhost.ordinary
  order _ _ := trivial
  eval := heval
  reach operands := balanced_reach operands trivial
  raw id key datum _ h _ := absurd h (hhost.raw id key datum)
  operation := hhost.operation
  task t ht := hhost.task t _ _ ht heval

theorem balanced_answer {primitive : Primitive → Run Value} {callable : Native}
    {operands : List Value}
    (hprimitive : ∀ p, Run.Balanced R level.remaining (primitive p) (Value.Within R))
    (hcallable : R.native callable) (hoperands : ∀ v ∈ operands, v.Within R) :
    Run.Balanced R level.remaining (callable.answer host level primitive operands)
      (Value.Within R) :=
  @Simulation.rel_answer R _ host level level (hhost.levels heval) primitive primitive
    (fun p _ => hprimitive p) callable hcallable operands hoperands

theorem balanced_applyTo {primitive : Primitive → Run Value} {callee : Value}
    {operands : List Value}
    (hprimitive : ∀ p, Run.Balanced R level.remaining (primitive p) (Value.Within R))
    (hcallee : callee.Within R) (hoperands : ∀ v ∈ operands, v.Within R) :
    Run.Balanced R level.remaining (applyTo host level primitive callee operands)
      (Value.Within R) :=
  @Simulation.rel_applyTo R _ host level level (hhost.levels heval) primitive primitive
    (fun p _ => hprimitive p) callee hcallee operands hoperands

/-- What operations on values rely on. -/
theorem Host.Serves.applies : level.Applies host R fun _ => True where
  error _ _ := trivial
  comparator _ := hhost.named _
  apply _ _ _ hprimitive hcallee hoperands :=
    balanced_applyTo hhost heval hprimitive hcallee hoperands

theorem Native.balanced_call {callable : Native} (hcallable : R.native callable)
    {exprs : List Value} (hexprs : ∀ e ∈ exprs, e.Within R) :
    Run.Balanced R level.remaining (callable.call host level exprs) (Value.Within R) :=
  Simulation.rel_nativeCall (hhost.levels heval) hcallable hexprs

theorem balanced_evalHead {head : Value} (hhead : head.Within R) :
    Run.Balanced R level.remaining (evalHead level head) (Value.Within R) :=
  Simulation.rel_evalHead (hhost.levels heval) hhead

end

/-! ### Evaluation -/

section
variable {host : Host} {R : Repertoire} (hhost : host.Serves R)
include hhost

/-- The evaluator is balanced on every level, by induction on the levels left. -/
theorem balanced_eval (n : Nat) : Evaluator.Balanced R n (eval host n) := by
  induction n with
  | zero => exact fun e _ => .fail trivial
  | succ n ih =>
    intro e he
    exact .nested (Simulation.rel_evalShape (@Host.Serves.levels host R ⟨n, _⟩ hhost ih) he)

/-- Evaluation is balanced on every exit path.  Whatever the outcome, as many frames are open and
evaluations under way as before, the enclosing frames are the same, every cell is still there with
its name and its type, and never were more evaluations under way than the limit allows. -/
theorem eval_balanced {n : Nat} {m : Machine} (hm : m.Ready R n) {e : Value} (he : e.Within R) :
    (eval host n e m).2.env.frameCount = m.env.frameCount ∧
      (eval host n e m).2.depth = m.depth ∧
      (eval host n e m).2.env.enclosing = m.env.enclosing ∧
      (∀ handle c, m.env.cell? handle = some c →
        ∃ c', (eval host n e m).2.env.cell? handle = some c' ∧ c'.name = c.name ∧ c'.ty = c.ty) ∧
      (eval host n e m).2.deepest ≤ maxEvalDepth := by
  obtain ⟨hready, hkeeps, -⟩ := balanced_eval hhost n e he m hm
  refine ⟨hkeeps.frameCount, ?_, hkeeps.enclosing, fun _ _ => hkeeps.cell?, hready.deepest⟩
  have := hready.depth
  have := hm.depth
  omega

end

/-- Built-in operations, an operation of the sample host, and its computations that count. -/
def Host.Sample.counting : Repertoire where
  native f :=
    match f.body with
    | .builtin _ => True
    | .operation key => key = "forty-two"
    | .raw .. => False
  task t := t.key = "counter"

theorem Host.Sample.serves_counting : Sample.host.Serves Sample.counting where
  closure _ := trivial
  named _ _ := id
  ordinary _ := trivial
  raw _ _ _ := id
  operation id key actuals v hkey _ h := by
    obtain rfl : key = "forty-two" := hkey
    obtain ⟨matched, -, h⟩ := Signature.exists_of_bind_eq_ok h
    obtain ⟨u, -, h⟩ := Signature.exists_of_bind_eq_ok h
    cases h
    simp [Value.Within]
  task t n eval hkey _ := by
    obtain ⟨identity, key, datum⟩ := t
    obtain rfl : key = "counter" := hkey
    intro m hm
    refine ⟨⟨hm.depth, hm.deepest, hm.within⟩, .refl _, ?_, fun _ _ => trivial⟩
    rintro a ⟨⟩
    simp [Value.Within]

/-- A `let` whose body fails leaves no frame behind, and the name of a computation is bound as
before. -/
theorem eval_balanced_counting :
    let env := (Environment.empty.defineValue "let" (.native ⟨"let", .builtin (.form .bindings)⟩)
      ).defineValue "n" (.deferred ⟨7, "counter", .nil⟩)
    let e := Value.list [.ofName "let", .list [.list [.ofName "x", .ofName "n"]], .ofName "y"]
    (eval Host.Sample.host maxEvalDepth e { env }).2.env.frameCount = 1 := by
  intro env e
  have hlet : Value.Within Host.Sample.counting
      (.native ⟨"let", .builtin (.form .bindings)⟩) := by simp [Value.Within, Host.Sample.counting]
  have hn : Value.Within Host.Sample.counting (.deferred ⟨7, "counter", .nil⟩) := by
    simp [Value.Within, Host.Sample.counting]
  have henv : env.Within Host.Sample.counting :=
    (Environment.within_empty.defineValue trivial hlet).defineValue trivial hn
  have he : e.Within Host.Sample.counting := by
    simp [e, Value.Within, Value.AllWithin, Value.ofName]
  exact (eval_balanced Host.Sample.serves_counting ⟨rfl, Nat.zero_le _, henv⟩ he).1

end HostLisp
