import HostLisp.Proofs.Evaluation.Operations

/-!
# Simulations

Two evaluators that are related on all expressions make related computations of everything: that
follows from the combinators that the parts of the evaluator are made of, so a relation has to be
looked at for these only.  A `Simulation` is a relation that all of them keep.  It also says what the
answers are like, and a repertoire says which callables there are; where that leaves out the one
operation that catches errors, the relation need not be kept by that.
-/

namespace HostLisp

/-- A relation of computations that the combinators keep, however the computations fail. -/
structure Simulation (R : Repertoire) extends Congruence R where
  any : ∀ e, error e
  through : ∀ {α : Type} {P : α → Prop} (p : Passage) {x y : Run α},
    rel P x y → rel P (Run.through p x) (Run.through p y)
  lookup : ∀ name, rel (fun b => ∀ b' ∈ b, Binding.WithinAt R name b') (Run.lookup name)
    (Run.lookup name)
  freshIdentity : rel (fun _ => True) Run.freshIdentity Run.freshIdentity
  declare : ∀ {name : String} {ty : Ty} {v : Value}, R.ordinary name → v.Within R →
    rel (fun _ => True) (Form.declareVar name ty v) (Form.declareVar name ty v)
  assign : ∀ {handle : Handle} {v : Value}, v.Within R →
    rel (Value.Within R) (Run.update fun env => (env.setVar handle v).map fun env => (v, env))
      (Run.update fun env => (env.setVar handle v).map fun env => (v, env))
  inFrame : ∀ {α : Type} {P : α → Prop} {x y : Run α},
    rel P x y → rel P (Run.inFrame x) (Run.inFrame y)
  /-- An environment is left for an activation only, with the parameters bound in it. -/
  inActivation : ∀ {α : Type} {P : α → Prop} {x y : Run α} {s : Signature}
    {captured : Names Binding} {actuals : List Value} {bound : List (String × Handle)}
    {env : Environment},
    s.bind (Environment.ofCaptured captured).pushFrame actuals = .ok (bound, env) →
    env.Within R → rel P x y → rel P (Run.inEnvironment env x) (Run.inEnvironment env y)

namespace Simulation

variable {R : Repertoire}

/-- Two levels where evaluation is related, and so is what the host does with the evaluator.  Only
natives are left out of the repertoire, if anything is. -/
structure Levels (S : Simulation R) (host : Host) (level level' : Level) : Prop where
  closure : ∀ c, R.closure c
  named : ∀ name f, ¬ R.named name f
  ordinary : ∀ name, R.ordinary name
  order : ∀ id, R.native ⟨id, .builtin (.primitive .order)⟩ → S.catches
  eval : ∀ e, e.Within R → S.rel (Value.Within R) (level.eval e) (level'.eval e)
  reach : ∀ operands, S.rel (fun _ => True) (level.reach operands) (level'.reach operands)
  raw : ∀ id key datum exprs, R.native ⟨id, .raw key datum⟩ → (∀ e ∈ exprs, e.Within R) →
    S.rel (Value.Within R) (host.raw key datum level.eval exprs)
      (host.raw key datum level'.eval exprs)
  operation : ∀ id key actuals v, R.native ⟨id, .operation key⟩ → (∀ a ∈ actuals, a.Within R) →
    (host.operation key).call actuals = .ok v → v.Within R
  task : ∀ t, R.task t → S.rel (Value.Within R) (t.force host level.eval) (t.force host level'.eval)

variable {S : Simulation R}

theorem failure {α : Type} {P : α → Prop} (e : Error) : S.rel P (Run.fail e) (Run.fail e) :=
  S.fail (S.any e)

theorem ofExcept {α : Type} {P : α → Prop} {outcome : Except Error α}
    (h : ∀ a, outcome = .ok a → P a) : S.rel P (Run.ofExcept outcome) (Run.ofExcept outcome) :=
  Congruence.ofExcept h fun e _ => S.any e

/-- Any outcome will do. -/
theorem outcome {α : Type} (outcome : Except Error α) :
    S.rel (fun _ => True) (Run.ofExcept outcome) (Run.ofExcept outcome) :=
  ofExcept fun _ _ => trivial

/-! ### Sequences and closures -/

theorem rel_makeLambda (hclosure : ∀ c, R.closure c) {exprs : List Value}
    (hexprs : ∀ e ∈ exprs, e.Within R) :
    S.rel (Value.Within R) (Form.makeLambda exprs) (Form.makeLambda exprs) := by
  cases exprs with
  | nil => exact failure _
  | cons formals body =>
    refine S.bind (outcome _) fun s _ => ?_
    refine S.bind S.environment fun env henv => ?_
    refine S.bind (P := Lambda.Within R) (ofExcept fun closure hbuild => ?_) fun closure hc => ?_
    · exact Lambda.within_build henv (fun e he => hexprs e (List.mem_cons_of_mem _ he))
        (hclosure closure) hbuild
    · refine S.bind S.freshIdentity fun identity _ => S.pure ?_
      rwa [Value.Within]

section
variable {eval eval' : Evaluator}
  (heval : ∀ e, e.Within R → S.rel (Value.Within R) (eval e) (eval' e))
include heval

theorem rel_evalAll {exprs : List Value} (hexprs : ∀ e ∈ exprs, e.Within R) :
    S.rel (fun vs => ∀ v ∈ vs, v.Within R) (evalAll eval exprs) (evalAll eval' exprs) := by
  induction exprs with
  | nil => exact S.pure nofun
  | cons e es ih =>
    obtain ⟨he, hes⟩ := List.forall_mem_cons.1 hexprs
    refine S.bind (heval e he) fun v hv => ?_
    exact S.bind (ih hes) fun vs hvs => S.pure (List.forall_mem_cons.2 ⟨hv, hvs⟩)

theorem rel_evalSequence {last : Value} {exprs : List Value} (hlast : last.Within R)
    (hexprs : ∀ e ∈ exprs, e.Within R) :
    S.rel (Value.Within R) (evalSequence eval last exprs) (evalSequence eval' last exprs) := by
  induction exprs generalizing last with
  | nil => exact S.pure hlast
  | cons e es ih =>
    obtain ⟨he, hes⟩ := List.forall_mem_cons.1 hexprs
    exact S.bind (heval e he) fun v hv => ih hv hes

theorem rel_call (hordinary : ∀ name, R.ordinary name) {closure : Lambda}
    {actuals : List Value} (hclosure : closure.Within R) (hactuals : ∀ a ∈ actuals, a.Within R) :
    S.rel (Value.Within R) (closure.call eval actuals) (closure.call eval' actuals) := by
  obtain ⟨s, captured, body⟩ := closure
  obtain ⟨-, hcaptured, hbody⟩ := hclosure
  unfold Lambda.call
  split
  · exact failure _
  · next bound env hbind =>
    have henv : env.Within R :=
      Signature.within_bind (Environment.within_ofCaptured hcaptured).pushFrame
        (fun c _ => hordinary c.1) hactuals hbind
    refine S.inActivation hbind henv (S.through _ (rel_evalSequence heval ?_ ?_))
    · simp [Value.Within]
    · exact Value.allWithin_iff.1 hbody

/-! ### Forms -/

theorem rel_bindAll (hordinary : ∀ name, R.ordinary name) {pairs : List Value}
    (hpairs : ∀ p ∈ pairs, p.Within R) :
    S.rel (fun _ => True) (Form.bindAll eval pairs) (Form.bindAll eval' pairs) := by
  induction pairs with
  | nil => exact S.pure trivial
  | cons p pairs ih =>
    obtain ⟨hp, hpairs⟩ := List.forall_mem_cons.1 hpairs
    have hrest := ih hpairs
    unfold Form.bindAll
    split
    · next h => cases h
    · next a init rest h =>
      cases h
      rw [Value.Within, Value.allWithin_iff] at hp
      refine S.bind (heval init (hp init (by simp))) fun v hv => ?_
      exact S.bind (S.declare (hordinary _) hv) fun _ _ => hrest
    · exact failure _

theorem rel_withBindings (hordinary : ∀ name, R.ordinary name) {exprs : List Value}
    (hexprs : ∀ e ∈ exprs, e.Within R) :
    S.rel (Value.Within R) (Form.withBindings eval exprs) (Form.withBindings eval' exprs) := by
  unfold Form.withBindings
  split
  · next pairs body =>
    obtain ⟨hpairs, hbody⟩ := List.forall_mem_cons.1 hexprs
    rw [Value.Within, Value.allWithin_iff] at hpairs
    refine S.inFrame (S.bind (rel_bindAll heval hordinary hpairs) fun _ _ => ?_)
    exact rel_evalSequence heval (by simp [Value.Within]) hbody
  · exact failure _

theorem rel_runDeclare (hordinary : ∀ name, R.ordinary name) {exprs : List Value}
    (hexprs : ∀ e ∈ exprs, e.Within R) :
    S.rel (Value.Within R) (Form.runDeclare eval exprs) (Form.runDeclare eval' exprs) := by
  have hnil : Value.nil.Within R := by simp [Value.Within]
  unfold Form.runDeclare
  split
  · exact S.bind (S.declare (hordinary _) hnil) fun _ _ => S.pure hnil
  · next a init =>
    refine S.bind (heval init (hexprs init (by simp))) fun v hv => ?_
    exact S.bind (S.declare (hordinary _) hv) fun _ _ => S.pure hv
  · exact failure _
  · exact failure _
  · exact failure _

theorem rel_runAssign {exprs : List Value} (hexprs : ∀ e ∈ exprs, e.Within R) :
    S.rel (Value.Within R) (Form.runAssign eval exprs) (Form.runAssign eval' exprs) := by
  unfold Form.runAssign
  split
  · next a expr =>
    refine S.bind (heval expr (hexprs expr (by simp))) fun v hv => ?_
    refine S.bind (S.lookup a.name) fun b _ => ?_
    cases b with
    | none => exact failure _
    | some b =>
      cases b with
      | var handle => exact S.assign hv
      | _ => exact failure _
  · exact failure _
  · exact failure _

theorem rel_chooseBy {condition yes : Value} {no : Option Value} (hcondition : condition.Within R)
    (hyes : yes.Within R) (hno : ∀ e ∈ no, e.Within R) :
    S.rel (Value.Within R) (Form.chooseBy eval condition yes no)
      (Form.chooseBy eval' condition yes no) := by
  refine S.bind (heval condition hcondition) fun v _ => ?_
  split
  · exact heval yes hyes
  · cases no with
    | none => exact S.pure (by simp [Value.Within])
    | some e => exact heval e (hno e rfl)
  · exact failure _

theorem rel_junctionFrom {decisive : Bool} {exprs : List Value} (hexprs : ∀ e ∈ exprs, e.Within R) :
    S.rel (Value.Within R) (Form.junctionFrom eval decisive exprs)
      (Form.junctionFrom eval' decisive exprs) := by
  induction exprs with
  | nil => exact S.pure (by simp [Value.Within])
  | cons e es ih =>
    obtain ⟨he, hes⟩ := List.forall_mem_cons.1 hexprs
    refine S.bind (heval e he) fun v _ => ?_
    split
    · split
      · exact S.pure (by simp [Value.Within])
      · exact ih hes
    · exact failure _

theorem rel_runChoose {exprs : List Value} (hexprs : ∀ e ∈ exprs, e.Within R) :
    S.rel (Value.Within R) (Form.runChoose eval exprs) (Form.runChoose eval' exprs) := by
  unfold Form.runChoose
  split
  · next c y => exact rel_chooseBy heval (hexprs c (by simp)) (hexprs y (by simp)) nofun
  · next c y e =>
    refine rel_chooseBy heval (hexprs c (by simp)) (hexprs y (by simp)) ?_
    rintro e' ⟨⟩
    exact hexprs e (by simp)
  · exact failure _

theorem rel_runJunction {decisive : Bool} {exprs : List Value} (hexprs : ∀ e ∈ exprs, e.Within R) :
    S.rel (Value.Within R) (Form.runJunction eval decisive exprs)
      (Form.runJunction eval' decisive exprs) := by
  unfold Form.runJunction
  split
  · exact failure _
  · split
    · exact failure _
    · exact rel_junctionFrom heval hexprs

/-- Forms on related evaluators, one case for each form. -/
theorem rel_form (hclosure : ∀ c, R.closure c) (hordinary : ∀ name, R.ordinary name) (f : Form)
    {exprs : List Value} (hexprs : ∀ e ∈ exprs, e.Within R) :
    S.rel (Value.Within R) (f.run eval exprs) (f.run eval' exprs) := by
  cases f with
  | quote =>
    rcases exprs with _ | ⟨e, _ | ⟨e', es⟩⟩
    · exact failure _
    · exact S.pure (hexprs e List.mem_cons_self)
    · exact failure _
  | lambda => exact rel_makeLambda hclosure hexprs
  | bindings => exact rel_withBindings heval hordinary hexprs
  | declare => exact rel_runDeclare heval hordinary hexprs
  | assign => exact rel_runAssign heval hexprs
  | choose => exact rel_runChoose heval hexprs
  | conjunction => exact rel_runJunction heval hexprs
  | disjunction => exact rel_runJunction heval hexprs

end

/-! ### Callables -/

section
variable {host : Host} {level level' : Level} (h : S.Levels host level level')
include h

theorem rel_settle {v : Value} (hv : v.Within R) :
    S.rel (Value.Within R) (settle host level v) (settle host level' v) := by
  cases v with
  | deferred t =>
    rw [Value.Within] at hv
    exact h.task t hv
  | _ => exact S.pure hv

theorem rel_answer {primitive primitive' : Primitive → Run Value}
    (hprimitive : ∀ p, (p = .order → S.catches) →
      S.rel (Value.Within R) (primitive p) (primitive' p))
    {callable : Native} (hcallable : R.native callable) {operands : List Value}
    (hoperands : ∀ v ∈ operands, v.Within R) :
    S.rel (Value.Within R) (callable.answer host level primitive operands)
      (callable.answer host level' primitive' operands) := by
  have hquoted : ∀ e ∈ operands.map Value.quote, e.Within R := by
    intro e he
    obtain ⟨v, hv, rfl⟩ := List.mem_map.1 he
    rw [Value.Within]
    exact hoperands v hv
  obtain ⟨id, body⟩ := callable
  cases body with
  | builtin op =>
    cases op with
    | primitive p =>
      refine S.bind (h.reach operands) fun _ _ => hprimitive p ?_
      rintro rfl
      exact h.order id hcallable
    | form f => exact S.bind (outcome _) fun _ _ => rel_form h.eval h.closure h.ordinary f hquoted
  | operation key =>
    refine S.bind (h.reach operands) fun _ _ => ofExcept fun v hv => ?_
    exact h.operation id key operands v hcallable hoperands hv
  | raw key datum => exact h.raw id key datum _ hcallable hquoted

theorem rel_applyTo {primitive primitive' : Primitive → Run Value}
    (hprimitive : ∀ p, (p = .order → S.catches) →
      S.rel (Value.Within R) (primitive p) (primitive' p))
    {callee : Value} (hcallee : callee.Within R) {operands : List Value}
    (hoperands : ∀ v ∈ operands, v.Within R) :
    S.rel (Value.Within R) (applyTo host level primitive callee operands)
      (applyTo host level' primitive' callee operands) := by
  cases callee with
  | native callable =>
    rw [Value.Within] at hcallee
    exact S.bind (rel_answer h hprimitive hcallee hoperands) fun v hv => rel_settle h hv
  | lambda identity closure =>
    rw [Value.Within] at hcallee
    exact rel_call h.eval h.ordinary hcallee hoperands
  | deferred t =>
    rw [Value.Within] at hcallee
    show S.rel _ (if operands.isEmpty then _ else _) (if operands.isEmpty then _ else _)
    split
    · exact h.task t hcallee
    · exact failure _
  | _ => exact failure _

/-- What operations on values rely on. -/
theorem Levels.applies : S.toCongruence.Applies host level level' where
  error e _ := S.any e
  comparator _ := h.named _
  apply _ _ _ _ hprimitive hcallee hoperands := rel_applyTo h hprimitive hcallee hoperands

/-! ### Applications -/

theorem rel_nativeCall {callable : Native} (hcallable : R.native callable) {exprs : List Value}
    (hexprs : ∀ e ∈ exprs, e.Within R) :
    S.rel (Value.Within R) (callable.call host level exprs) (callable.call host level' exprs) := by
  obtain ⟨id, body⟩ := callable
  cases body with
  | builtin op =>
    cases op with
    | primitive p =>
      refine S.bind (rel_evalAll h.eval hexprs) fun operands hoperands => ?_
      refine S.bind (outcome _) fun _ _ =>
        Congruence.rel_runPrimitive h.applies p operands ?_ hoperands
      rintro rfl
      exact h.order id hcallable
    | form f => exact S.bind (outcome _) fun _ _ => rel_form h.eval h.closure h.ordinary f hexprs
  | operation key =>
    refine S.bind (rel_evalAll h.eval hexprs) fun actuals hactuals => ofExcept fun v hv => ?_
    exact h.operation id key actuals v hcallable hactuals hv
  | raw key datum => exact h.raw id key datum exprs hcallable hexprs

theorem rel_evalName (name : String) :
    S.rel (Value.Within R) (evalName host level name) (evalName host level' name) := by
  refine S.bind (S.lookup name) fun b hb => ?_
  cases b with
  | none => exact failure _
  | some b =>
    cases b with
    | value v =>
      obtain ⟨f, -, hf⟩ | hv := hb _ rfl
      · exact absurd hf (h.named name f)
      · exact rel_settle h (Binding.within_value.1 hv)
    | var handle =>
      refine S.bind S.environment fun env henv => ?_
      cases hv : env.var? handle with
      | none => exact failure _
      | some v => exact S.pure (henv.var? hv)
    | type ty => exact failure _
    | toolkit kit => exact failure _

theorem rel_evalHead {head : Value} (hhead : head.Within R) :
    S.rel (Value.Within R) (evalHead level head) (evalHead level' head) := by
  cases head with
  | atom a =>
    refine S.bind (S.lookup a.name) fun b hb => ?_
    split
    · obtain ⟨f, hf, -⟩ | hv := hb _ rfl
      · cases hf
      · exact S.pure (Binding.within_value.1 hv)
    · exact h.eval _ hhead
  | _ => exact h.eval _ hhead

theorem rel_evalApplication {head : Value} {args : List Value} (hhead : head.Within R)
    (hargs : ∀ e ∈ args, e.Within R) :
    S.rel (Value.Within R) (evalApplication host level head args)
      (evalApplication host level' head args) := by
  refine S.bind (rel_evalHead h hhead) fun callee hcallee => ?_
  cases callee with
  | native callable =>
    rw [Value.Within] at hcallee
    exact S.bind (rel_nativeCall h hcallee hargs) fun v hv => rel_settle h hv
  | lambda identity closure =>
    rw [Value.Within] at hcallee
    exact S.bind (rel_evalAll h.eval hargs) fun actuals hactuals =>
      rel_call h.eval h.ordinary hcallee hactuals
  | deferred t =>
    rw [Value.Within] at hcallee
    show S.rel _ (if args.isEmpty then _ else _) (if args.isEmpty then _ else _)
    split
    · exact h.task t hcallee
    · exact failure _
  | _ => exact failure _

/-- On levels where evaluation is related, what evaluation does with an expression is related. -/
theorem rel_evalShape {expr : Value} (hexpr : expr.Within R) :
    S.rel (Value.Within R) (evalShape host level expr) (evalShape host level' expr) := by
  cases expr with
  | atom a => exact rel_evalName h a.name
  | quote inner =>
    rw [Value.Within] at hexpr
    exact S.pure hexpr
  | list items =>
    cases items with
    | nil => exact S.pure hexpr
    | cons head args =>
      rw [Value.Within, Value.allWithin_iff] at hexpr
      obtain ⟨hhead, hargs⟩ := List.forall_mem_cons.1 hexpr
      exact S.through _ (rel_evalApplication h hhead hargs)
  | _ => exact S.pure hexpr

end

end Simulation

end HostLisp
