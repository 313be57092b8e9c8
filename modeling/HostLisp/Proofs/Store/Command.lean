import HostLisp.Global
import HostLisp.Host.Sample
import HostLisp.Proofs.Store.Step
import HostLisp.Proofs.Store.Tracking

/-!
# What a host does with an environment

A host binds names, makes and assigns variables, enters and leaves scopes and has expressions
evaluated, in any order, and goes on after an error.  However it goes on, the environment follows a
course of single operations, and in each environment on the way, and in each activation, every cell
holds a value of its type.
-/

namespace HostLisp

/-! ### Disciplines from invariants -/

/-- The discipline of single operations in environments that an invariant holds of. -/
def Discipline.ofInvariant (P : Environment → Prop)
    (hstep : ∀ {env env'}, Environment.Step env env' → P env → P env')
    (hactivation : ∀ captured, P (Environment.ofCaptured captured).pushFrame) : Discipline where
  ok := P
  next := Environment.Course
  refl _ := .refl
  trans h h' := h.trans h'
  stays hP h := h.induct hstep hP
  defineVar h := (Environment.Step.defineVar h).course
  setVar h := (Environment.Step.setVar h).course
  pushFrame hP := hstep (.pushFrame _) hP
  popFrame h := (Relation.ReflTransGen.head (.pushFrame _) h).tail (.popFrame _)
  activation := hactivation

/-- One operation after the other. -/
def Discipline.steps : Discipline :=
  .ofInvariant (fun _ => True) (fun _ _ => trivial) fun _ => trivial

/-- What a host can do with an environment. -/
inductive Command where
  | defineValue (name : String) (v : Value)
  | defineType (name : String) (ty : Ty)
  | registerToolkit (kit : Toolkit)
  | newVar (name : String) (ty : Ty) (v : Value)
  | defineVar (name : String) (ty : Ty) (v : Value)
  | setVar (handle : Handle) (v : Value)
  | bind (s : Signature) (actuals : List Value)
  | pushFrame
  | popFrame
  /-- Evaluation where `n` more evaluations may nest. -/
  | evaluate (n : Nat) (expr : Value)

namespace Command

/-- Runs a command with evaluators for all levels. -/
def run (eval : Nat → Evaluator) : Command → Run Unit
  | defineValue name v => Run.update fun env => .ok ((), env.defineValue name v)
  | defineType name ty => Run.update fun env => .ok ((), env.defineType name ty)
  | registerToolkit kit => Run.update fun env => .ok ((), env.registerToolkit kit)
  | newVar name ty v => Run.update fun env => (env.newVar name ty v).map fun x => ((), x.2)
  | defineVar name ty v => Run.update fun env => (env.defineVar name ty v).map fun x => ((), x.2)
  | setVar handle v => Run.update fun env => (env.setVar handle v).map fun env => ((), env)
  | bind s actuals => Run.update fun env => (s.bind env actuals).map fun x => ((), x.2)
  | pushFrame => Run.update fun env => .ok ((), env.pushFrame)
  | popFrame => Run.update fun env => .ok ((), env.popFrame)
  | evaluate n expr => (fun _ => ()) <$> eval n expr

/-- Runs commands one after the other, those behind a failure as well. -/
def runAll (eval : Nat → Evaluator) (cs : List Command) (m : Machine) : Machine :=
  cs.foldl (fun m c => (c.run eval m).2) m

theorem runAll_cons (eval : Nat → Evaluator) (c : Command) (cs : List Command) (m : Machine) :
    runAll eval (c :: cs) m = runAll eval cs (c.run eval m).2 := rfl

/-- Commands in a scope of their own, which is left in any case. -/
theorem runAll_scope (eval : Nat → Evaluator) (cs : List Command) (m : Machine) :
    runAll eval (.pushFrame :: cs ++ [.popFrame]) m =
      (Run.inFrame (fun m => (.ok (), runAll eval cs m)) m).2 := by
  unfold runAll
  rw [List.foldl_append]
  rfl

/-! ### What commands do -/

section
variable {P : Environment → Prop} {hstep : ∀ {env env'}, Environment.Step env env' → P env → P env'}
  {hactivation : ∀ captured, P (Environment.ofCaptured captured).pushFrame}
  {eval eval' : Nat → Evaluator}

theorem tracks_step {f : Environment → Environment} (hf : ∀ env, Environment.Step env (f env)) :
    Run.Tracks (.ofInvariant P hstep hactivation) (Run.update fun env => .ok ((), f env))
      (Run.update fun env => .ok ((), f env)) := by
  refine .update fun env u env' h => ?_
  cases h
  exact (hf env).course

theorem tracks_run
    (heval : ∀ n, Evaluator.Tracks (.ofInvariant P hstep hactivation) (eval n) (eval' n))
    (c : Command) : Run.Tracks (.ofInvariant P hstep hactivation) (c.run eval) (c.run eval') := by
  have hvalue : ∀ (v : Value) (handle : Handle), Binding.value v ≠ .var handle := nofun
  have htype : ∀ (ty : Ty) (handle : Handle), Binding.type ty ≠ .var handle := nofun
  have hkit : ∀ (kit : Toolkit) (handle : Handle), Binding.toolkit kit ≠ .var handle := nofun
  cases c with
  | defineValue name v => exact tracks_step fun env => .define env name (hvalue v)
  | defineType name ty => exact tracks_step fun env => .define env name (htype ty)
  | registerToolkit kit => exact tracks_step fun env => .define env kit.name (hkit kit)
  | newVar name ty v =>
    unfold run
    apply Run.Tracks.update_map
    intro env x h
    exact (Environment.Step.newVar h).course
  | defineVar name ty v =>
    unfold run
    apply Run.Tracks.update_map
    intro env x h
    exact (Environment.Step.defineVar h).course
  | setVar handle v =>
    unfold run
    apply Run.Tracks.update_map
    intro env x h
    exact (Environment.Step.setVar h).course
  | bind s actuals =>
    unfold run
    apply Run.Tracks.update_map
    intro env x h
    exact Signature.next_bind h
  | pushFrame => exact tracks_step .pushFrame
  | popFrame => exact tracks_step .popFrame
  | evaluate n expr => exact (heval n expr).map _

/-- Commands follow a course, and evaluators that cannot be told apart make no difference. -/
theorem tracks_runAll
    (heval : ∀ n, Evaluator.Tracks (.ofInvariant P hstep hactivation) (eval n) (eval' n))
    (cs : List Command) {m : Machine} (hm : P m.env) :
    runAll eval' cs m = runAll eval cs m ∧ Environment.Course m.env (runAll eval cs m).env := by
  induction cs generalizing m with
  | nil => exact ⟨rfl, .refl⟩
  | cons c cs ih =>
    obtain ⟨heq, hcourse⟩ := tracks_run heval c m hm
    obtain ⟨heqs, hcourses⟩ := ih (hcourse.induct hstep hm)
    rw [runAll_cons, runAll_cons, heq]
    exact ⟨heqs, hcourse.trans hcourses⟩

end

end Command

/-! ### Typed stores -/

namespace Environment

end Environment

/-- The sample host leaves environments to the evaluator. -/
theorem Host.Sample.obeys (D : Discipline) : Sample.host.Obeys D where
  raw key datum exprs eval eval' heval := by
    show Run.Tracks D (Sample.raw key datum eval exprs) (Sample.raw key datum eval' exprs)
    unfold Sample.raw
    split
    · exact .pure _
    · exact .pure _
    · exact .pure _
    · exact .pure _
    · exact .bind .freshIdentity fun identity => .pure _
    · exact .bind (heval _) fun once => heval once
    · exact .pure _
  deferred key identity datum eval eval' heval := by
    show Run.Tracks D
      (if key = Toolkit.Time.nowKey then _ else Sample.deferred key identity datum eval)
      (if key = Toolkit.Time.nowKey then _ else Sample.deferred key identity datum eval')
    split
    · exact .of_env fun _ => rfl
    · unfold Sample.deferred
      split
      · exact .pure _
      · exact .of_env fun _ => rfl
      · exact heval datum
      · exact .fail _
      · exact .pure _

end HostLisp
