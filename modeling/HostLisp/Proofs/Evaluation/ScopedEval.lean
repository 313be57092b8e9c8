import HostLisp.Proofs.Evaluation.Scoped

/-!
# Evaluation in scope

Evaluation goes by the analysis: an expression that evaluates only what is in scope takes that scope
to the one behind it.  So a closure whose analysis succeeds never fails because a name is unbound,
whatever it is called with and wherever, unless the name is a late one.
-/

namespace HostLisp

open Run (InScope)

/-- The evaluator takes the scope in front of an expression to the one behind it, and a form's name
stands for the form. -/
structure Evaluator.Scoped (late : List String) (n : Nat) (eval : Evaluator) : Prop where
  expr : ∀ scope e scope', e.Within (.scoped late) →
    Scope.afterExpr? late scope e = some scope' →
    InScope late n scope (eval e) (Value.Within (.scoped late)) scope'
  form : ∀ scope a f, Form.ofName? a.name = some f → a.name ∈ late ++ scope →
    InScope late n scope (eval (.atom a)) (fun v => ∃ id, v = .native ⟨id, .builtin (.form f)⟩) scope

/-! ### Sequences, variables and closures -/

section
variable {late scope scope' : List String} {n : Nat}

theorem Form.inScope_declareVar {name : String} {ty : Ty} {v : Value}
    (hname : Form.ofName? name = none) (hv : v.Within (.scoped late)) :
    InScope late n scope (Form.declareVar name ty v) (fun _ => True) (name :: scope) := by
  refine .update_map (fun env c henv h => ?_) fun env e h => ?_
  · refine ⟨henv.defineVar hname hv h, Environment.keeps_defineVar h, trivial, ?_⟩
    exact List.forall_mem_cons.2 ⟨.inr (Environment.holds_defineVar h), fun _ => .inl⟩
  · exact Environment.not_isUnbound_of_defineVar h

variable {eval : Evaluator} (heval : Evaluator.Scoped late n eval)
include heval

theorem inScope_evalAll {es : List Value} (hes : ∀ e ∈ es, e.Within (.scoped late))
    (h : Scope.afterBody? late scope es = some scope') :
    InScope late n scope (evalAll eval es) (fun vs => ∀ v ∈ vs, v.Within (.scoped late)) scope' := by
  induction es generalizing scope with
  | nil =>
    cases h
    exact .pure nofun
  | cons e es ih =>
    obtain ⟨he, hes⟩ := List.forall_mem_cons.1 hes
    obtain ⟨scope₁, hscope₁, h⟩ := Option.bind_eq_some_iff.1 h
    refine .bind (heval.expr _ _ _ he hscope₁) fun v hv => ?_
    exact .bind (ih hes h) fun vs hvs => .pure (List.forall_mem_cons.2 ⟨hv, hvs⟩)

theorem inScope_evalSequence {last : Value} {es : List Value} (hlast : last.Within (.scoped late))
    (hes : ∀ e ∈ es, e.Within (.scoped late)) (h : Scope.afterBody? late scope es = some scope') :
    InScope late n scope (evalSequence eval last es) (Value.Within (.scoped late)) scope' := by
  induction es generalizing scope last with
  | nil =>
    cases h
    exact .pure hlast
  | cons e es ih =>
    obtain ⟨he, hes⟩ := List.forall_mem_cons.1 hes
    obtain ⟨scope₁, hscope₁, h⟩ := Option.bind_eq_some_iff.1 h
    exact .bind (heval.expr _ _ _ he hscope₁) fun v hv => ih hv hes h

/-- An activation starts with everything in scope that its body evaluates. -/
theorem Lambda.balanced_call_scoped {closure : Lambda} {actuals : List Value}
    (hclosure : closure.Within (.scoped late)) (hactuals : ∀ a ∈ actuals, a.Within (.scoped late)) :
    Run.Balanced (.scoped late) n (closure.call eval actuals) (Value.Within (.scoped late))
      (Error.IsLate late) := by
  obtain ⟨s, captured, body⟩ := closure
  obtain ⟨⟨⟨hformals, hcovers⟩, hvars⟩, hcaptured, hbody⟩ := hclosure
  obtain ⟨scope, hscope⟩ := Option.isSome_iff_exists.1 hcovers
  unfold Lambda.call
  split
  · next e hbind =>
    exact .fail (Error.isLate_of_not_isUnbound (Signature.not_isUnbound_of_bind hbind))
  · next bound env hbind =>
    have hnames : ∀ c ∈ s.cellTypes, Form.ofName? c.1 = none := by
      intro c hc
      have hname := List.mem_map_of_mem (f := Prod.fst) hc
      rw [Signature.names_cellTypes] at hname
      obtain ⟨a, ha, hac⟩ := List.mem_map.1 hname
      rw [← hac]
      exact hformals a ha
    have henv : env.Within (.scoped late) :=
      Signature.within_bind (Environment.within_ofCaptured hcaptured).pushFrame hnames hactuals hbind
    have hrun := inScope_evalSequence heval (show Value.nil.Within _ by simp [Value.Within])
      (Value.allWithin_iff.1 hbody) hscope
    exact InScope.inEnvironment henv (Lambda.holdsAll_bind hvars hbind) (.through hrun)

/-! ### Forms -/

omit heval in
/-- A closure covers what its form does, and can be made where all of that is in scope. -/
theorem Lambda.within_build_scoped {env : Environment} {s : Signature} {body : List Value}
    {closure : Lambda} (henv : env.Within (.scoped late))
    (hbody : ∀ e ∈ body, e.Within (.scoped late))
    (hcovers : Scope.Covers late s.formals (freeNames s.formals body) body)
    (h : Lambda.build env s body = .ok closure) : closure.Within (.scoped late) := by
  refine Lambda.within_build henv hbody ?_ h
  obtain ⟨captured, hcaptured, rfl⟩ := Lambda.exists_of_build h
  obtain ⟨hnames, hvars⟩ := Environment.names_of_captureAll hcaptured
  refine ⟨?_, hvars⟩
  show Scope.Covers late s.formals (captured.map Prod.fst) body
  rwa [hnames]

omit heval in
theorem Form.inScope_makeLambda {exprs : List Value} (hexprs : ∀ e ∈ exprs, e.Within (.scoped late))
    (h : Scope.afterForm? late scope .lambda exprs = some scope') :
    InScope late n scope (Form.makeLambda exprs) (Value.Within (.scoped late)) scope' := by
  cases exprs with
  | nil => exact .error id
  | cons formals body =>
    rw [Scope.afterForm?] at h
    split at h
    · next hcond =>
      obtain ⟨inner, hinner, rfl⟩ := Option.map_eq_some_iff.1 h
      refine .bind (.outcome fun e he => Signature.not_isUnbound_of_ofValue he) fun s hs => ?_
      rw [Signature.parameterNames_of_ofValue hs] at hcond hinner
      obtain ⟨hformals, hfree⟩ := hcond
      refine .environment fun env henv hscope => ?_
      refine .bind (P := fun closure => Lambda.build env s body = .ok closure)
        (.of_balanced (.ofExcept (fun _ => id) fun e he => ?_)) fun closure hbuild => ?_
      · obtain ⟨name, hname, hnone, rfl⟩ := Lambda.exists_of_build_eq_error he
        obtain hlate | hholds := hscope.mem (hfree name hname)
        · exact Error.isLate_unbound hlate
        · exact absurd hnone hholds.capture?
      · refine .bind (.of_balanced .freshIdentity) fun identity _ => .pure ?_
        rw [Value.Within]
        refine Lambda.within_build_scoped henv (List.forall_mem_cons.1 hexprs).2 ⟨?_, ?_⟩ hbuild
        · exact fun a ha => hformals _ (List.mem_map_of_mem ha)
        · exact Option.isSome_iff_exists.2 ⟨inner, hinner⟩
    · cases h

theorem Form.inScope_bindAll {pairs : List Value} (hpairs : ∀ p ∈ pairs, p.Within (.scoped late))
    (h : Scope.afterBindings? late scope pairs = some scope') :
    InScope late n scope (Form.bindAll eval pairs) (fun _ => True) scope' := by
  induction pairs generalizing scope with
  | nil =>
    cases h
    exact .pure trivial
  | cons p pairs ih =>
    obtain ⟨hp, hrest⟩ := List.forall_mem_cons.1 hpairs
    unfold Form.bindAll
    split
    · next hnil => cases hnil
    · next a init rest hcons =>
      cases hcons
      rw [Value.Within, Value.allWithin_iff] at hp
      rw [Scope.afterBindings?] at h
      split at h
      · next hname =>
        obtain ⟨scope₁, hinit, h⟩ := Option.bind_eq_some_iff.1 h
        obtain ⟨_, hinit, ⟨⟩⟩ := Option.bind_eq_some_iff.1 hinit
        refine .bind (heval.expr _ _ _ (hp init (by simp)) hinit) fun v hv => ?_
        exact .bind (Form.inScope_declareVar hname hv) fun _ _ => ih hrest h
      · cases h
    · exact .error id

theorem Form.inScope_withBindings {exprs : List Value}
    (hexprs : ∀ e ∈ exprs, e.Within (.scoped late))
    (h : Scope.afterForm? late scope .bindings exprs = some scope') :
    InScope late n scope (Form.withBindings eval exprs) (Value.Within (.scoped late)) scope' := by
  unfold Form.withBindings
  split
  · next pairs body =>
    obtain ⟨hpairs, hbody⟩ := List.forall_mem_cons.1 hexprs
    rw [Value.Within, Value.allWithin_iff] at hpairs
    rw [Scope.afterForm?] at h
    obtain ⟨scope₁, hscope₁, h⟩ := Option.bind_eq_some_iff.1 h
    obtain ⟨scope₂, hscope₂, rfl⟩ := Option.map_eq_some_iff.1 h
    have hrun := inScope_evalSequence heval (show Value.nil.Within _ by simp [Value.Within]) hbody
      hscope₂
    exact .inFrame (.bind (Form.inScope_bindAll heval hpairs hscope₁) fun _ _ => hrun)
  · exact .error id

theorem Form.inScope_runDeclare {exprs : List Value} (hexprs : ∀ e ∈ exprs, e.Within (.scoped late))
    (h : Scope.afterForm? late scope .declare exprs = some scope') :
    InScope late n scope (Form.runDeclare eval exprs) (Value.Within (.scoped late)) scope' := by
  have hnil : Value.nil.Within (.scoped late) := by simp [Value.Within]
  unfold Form.runDeclare
  split
  · rw [Scope.afterForm?] at h
    split at h
    · next hname =>
      cases h
      exact .bind (Form.inScope_declareVar hname hnil) fun _ _ => .pure hnil
    · cases h
  · next a init =>
    rw [Scope.afterForm?] at h
    split at h
    · next hname =>
      obtain ⟨scope₁, hinit, rfl⟩ := Option.map_eq_some_iff.1 h
      obtain ⟨_, hinit, ⟨⟩⟩ := Option.bind_eq_some_iff.1 hinit
      refine .bind (heval.expr _ _ _ (hexprs init (by simp)) hinit) fun v hv => ?_
      exact .bind (Form.inScope_declareVar hname hv) fun _ _ => .pure hv
    · cases h
  · exact .error id
  · exact .error id
  · exact .error id

omit heval in
theorem Form.inScope_assign (handle : Handle) {v : Value} (hv : v.Within (.scoped late)) :
    InScope late n scope
      (Run.update fun env => (env.setVar handle v).map fun env => (v, env))
      (Value.Within (.scoped late)) scope := by
  refine .update_map (fun env c henv h => ?_) fun env e h => ?_
  · exact ⟨henv.setVar hv h, Environment.keeps_setVar h, hv, fun _ => .inl⟩
  · exact Environment.not_isUnbound_of_setVar h

theorem Form.inScope_runAssign {exprs : List Value} (hexprs : ∀ e ∈ exprs, e.Within (.scoped late))
    (h : Scope.afterForm? late scope .assign exprs = some scope') :
    InScope late n scope (Form.runAssign eval exprs) (Value.Within (.scoped late)) scope' := by
  unfold Form.runAssign
  split
  · next a expr =>
    rw [Scope.afterForm?] at h
    obtain ⟨scope₁, hexpr, h⟩ := Option.bind_eq_some_iff.1 h
    obtain ⟨_, hexpr, ⟨⟩⟩ := Option.bind_eq_some_iff.1 hexpr
    split at h
    · next hname =>
      cases h
      refine .bind (heval.expr _ _ _ (hexprs expr (by simp)) hexpr) fun v hv => ?_
      refine .lookup hname (fun b _ => ?_) fun hlate => .fail (Error.isLate_unbound hlate)
      cases b with
      | var handle => exact Form.inScope_assign handle hv
      | _ => exact .error id
    · cases h
  · exact .error id
  · exact .error id

omit heval in
/-- Behind a choice only that is in scope which is so in both cases. -/
theorem Form.inScope_chooseBy {scope₁ inYes inNo : List String} {condition yes : Value}
    {no : Option Value}
    (hcondition : InScope late n scope (eval condition) (Value.Within (.scoped late)) scope₁)
    (hyes : InScope late n scope₁ (eval yes) (Value.Within (.scoped late)) inYes)
    (hno : ∀ e ∈ no, InScope late n scope₁ (eval e) (Value.Within (.scoped late)) inNo)
    (hnone : no = none → inNo = scope₁) :
    InScope late n scope (Form.chooseBy eval condition yes no) (Value.Within (.scoped late))
      (inYes.filter (· ∈ inNo)) := by
  refine .bind hcondition fun v _ => ?_
  split
  · exact hyes.mono fun name hname => .inr (List.mem_filter.1 hname).1
  · split
    · next e =>
      exact (hno e rfl).mono fun name hname => .inr (of_decide_eq_true (List.mem_filter.1 hname).2)
    · rw [hnone rfl]
      have hnil : InScope late n scope₁ (pure .nil) (Value.Within (.scoped late)) scope₁ :=
        .pure (by simp [Value.Within])
      exact hnil.mono fun name hname => .inl (of_decide_eq_true (List.mem_filter.1 hname).2)
  · exact .error id

theorem Form.inScope_runChoose {exprs : List Value} (hexprs : ∀ e ∈ exprs, e.Within (.scoped late))
    (h : Scope.afterForm? late scope .choose exprs = some scope') :
    InScope late n scope (Form.runChoose eval exprs) (Value.Within (.scoped late)) scope' := by
  unfold Form.runChoose
  split
  · next c y =>
    rw [Scope.afterForm?] at h
    obtain ⟨scope₁, hc, h⟩ := Option.bind_eq_some_iff.1 h
    obtain ⟨inYes, hy, h⟩ := Option.bind_eq_some_iff.1 h
    obtain ⟨inNo, ⟨⟩, rfl⟩ := Option.map_eq_some_iff.1 h
    exact Form.inScope_chooseBy (heval.expr _ _ _ (hexprs c (by simp)) hc)
      (heval.expr _ _ _ (hexprs y (by simp)) hy) nofun fun _ => rfl
  · next c y e =>
    rw [Scope.afterForm?] at h
    obtain ⟨scope₁, hc, h⟩ := Option.bind_eq_some_iff.1 h
    obtain ⟨inYes, hy, h⟩ := Option.bind_eq_some_iff.1 h
    obtain ⟨inNo, hn, rfl⟩ := Option.map_eq_some_iff.1 h
    obtain ⟨_, hn, ⟨⟩⟩ := Option.bind_eq_some_iff.1 hn
    refine Form.inScope_chooseBy (heval.expr _ _ _ (hexprs c (by simp)) hc)
      (heval.expr _ _ _ (hexprs y (by simp)) hy) ?_ nofun
    rintro e' ⟨⟩
    exact heval.expr _ _ _ (hexprs e (by simp)) hn
  · exact .error id

theorem Form.inScope_junctionFrom {decisive : Bool} {es : List Value}
    (hes : ∀ e ∈ es, e.Within (.scoped late)) (h : Scope.afterBody? late scope es = some scope') :
    InScope late n scope (Form.junctionFrom eval decisive es) (Value.Within (.scoped late))
      scope := by
  induction es generalizing scope with
  | nil => exact .pure (by simp [Value.Within])
  | cons e es ih =>
    obtain ⟨he, hes⟩ := List.forall_mem_cons.1 hes
    obtain ⟨scope₁, hscope₁, h⟩ := Option.bind_eq_some_iff.1 h
    suffices hrun : InScope late n scope (Form.junctionFrom eval decisive (e :: es))
        (Value.Within (.scoped late)) scope₁ from hrun.stay
    refine .bind (heval.expr _ _ _ he hscope₁) fun v _ => ?_
    split
    · split
      · exact .pure (by simp [Value.Within])
      · exact ih hes h
    · exact .error id

/-- Behind a junction that is in scope which is so behind its first expression. -/
theorem Form.inScope_runJunction {decisive : Bool} {exprs : List Value}
    (hexprs : ∀ e ∈ exprs, e.Within (.scoped late))
    (h : ∀ e es, exprs = e :: es →
      ((Scope.afterExpr? late scope e).bind fun scope =>
        (Scope.afterBody? late scope es).map fun _ => scope) = some scope') :
    InScope late n scope (Form.runJunction eval decisive exprs) (Value.Within (.scoped late))
      scope' := by
  unfold Form.runJunction
  split
  · exact .error id
  · next hne =>
    split
    · exact .error id
    · cases exprs with
      | nil => exact absurd rfl hne
      | cons e es =>
        obtain ⟨he, hes⟩ := List.forall_mem_cons.1 hexprs
        obtain ⟨scope₁, hscope₁, h⟩ := Option.bind_eq_some_iff.1 (h e es rfl)
        obtain ⟨scope₂, hscope₂, rfl⟩ := Option.map_eq_some_iff.1 h
        refine .bind (heval.expr _ _ _ he hscope₁) fun v _ => ?_
        split
        · split
          · exact .pure (by simp [Value.Within])
          · exact Form.inScope_junctionFrom heval hes hscope₂
        · exact .error id

theorem Form.inScope_run (f : Form) {exprs : List Value}
    (hexprs : ∀ e ∈ exprs, e.Within (.scoped late))
    (h : Scope.afterForm? late scope f exprs = some scope') :
    InScope late n scope (f.run eval exprs) (Value.Within (.scoped late)) scope' := by
  cases f with
  | quote =>
    rcases exprs with _ | ⟨e, _ | ⟨e', es⟩⟩
    · exact .error id
    · cases h
      exact .pure (hexprs e List.mem_cons_self)
    · exact .error id
  | lambda => exact Form.inScope_makeLambda hexprs h
  | bindings => exact Form.inScope_withBindings heval hexprs h
  | declare => exact Form.inScope_runDeclare heval hexprs h
  | assign => exact Form.inScope_runAssign heval hexprs h
  | choose => exact Form.inScope_runChoose heval hexprs h
  | conjunction =>
    refine Form.inScope_runJunction heval hexprs fun e es he => ?_
    rwa [he, Scope.afterForm?] at h
  | disjunction =>
    refine Form.inScope_runJunction heval hexprs fun e es he => ?_
    rwa [he, Scope.afterForm?] at h

end

/-! ### Operations -/

section
variable {host : Host} {level : Level} {late scope scope₁ scope' : List String}

/-- Nothing is deferred. -/
theorem settle_of_within_scoped {v : Value} (hv : v.Within (.scoped late)) :
    settle host level v = pure v := by
  cases v with
  | deferred t =>
    rw [Value.Within] at hv
    exact hv.elim
  | _ => rfl

theorem inScope_settle {n : Nat} {x : Run Value}
    (h : InScope late n scope x (Value.Within (.scoped late)) scope') :
    InScope late n scope (x >>= fun v => settle host level v) (Value.Within (.scoped late))
      scope' := by
  refine .bind h fun v hv => ?_
  rw [settle_of_within_scoped hv]
  exact .pure hv

variable (heval : Evaluator.Scoped late level.remaining level.eval)
include heval

theorem balanced_applyTo_scoped {primitive : Primitive → Run Value} {callee : Value}
    {operands : List Value}
    (hprimitive : ∀ p, Run.Balanced (.scoped late) level.remaining (primitive p)
      (Value.Within (.scoped late)) (Error.IsLate late))
    (hcallee : callee.Within (.scoped late)) (hoperands : ∀ v ∈ operands, v.Within (.scoped late)) :
    Run.Balanced (.scoped late) level.remaining (applyTo host level primitive callee operands)
      (Value.Within (.scoped late)) (Error.IsLate late) := by
  cases callee with
  | native callable =>
    obtain ⟨id, body⟩ := callable
    rw [Value.Within] at hcallee
    obtain ⟨p, rfl⟩ := hcallee
    refine .bind (.bind (balanced_reach operands (Error.isLate_of_not_isUnbound fun h => h))
      fun _ _ => hprimitive p) fun v hv => ?_
    rw [settle_of_within_scoped hv]
    exact .pure hv
  | lambda identity closure =>
    rw [Value.Within] at hcallee
    exact Lambda.balanced_call_scoped heval hcallee hoperands
  | deferred t =>
    rw [Value.Within] at hcallee
    exact hcallee.elim
  | _ => exact .fail (Error.isLate_of_not_isUnbound id)

/-- Operations on values fail for a name only as the closures they apply do. -/
theorem Evaluator.Scoped.applies : level.Applies host (.scoped late) (Error.IsLate late) where
  error _ := Error.isLate_of_not_isUnbound
  comparator lenient f := by
    rintro ⟨form, h, -⟩
    have hnone : Form.ofName? (comparator lenient) = none := by cases lenient <;> decide
    rw [hnone] at h
    cases h
  apply _ _ _ hprimitive hcallee hoperands :=
    balanced_applyTo_scoped heval hprimitive hcallee hoperands

/-! ### Applications -/

omit heval in
theorem inScope_evalName {name : String} (hordinary : Form.ofName? name = none)
    (hname : name ∈ late ++ scope) :
    InScope late level.remaining scope (evalName host level name) (Value.Within (.scoped late))
      scope := by
  refine .lookup hname (fun b hb => ?_) fun hlate => .fail (Error.isLate_unbound hlate)
  cases b with
  | value v =>
    obtain ⟨f, -, form, hform, -⟩ | ⟨-, hv⟩ := hb
    · rw [hordinary] at hform
      cases hform
    · rw [Binding.within_value] at hv
      show InScope _ _ _ (settle host level v) _ _
      rw [settle_of_within_scoped hv]
      exact .pure hv
  | var handle =>
    refine .environment fun env henv _ => ?_
    cases hv : env.var? handle with
    | none => exact .error id
    | some v => exact .pure (henv.var? hv)
  | type ty => exact .error id
  | toolkit kit => exact .error id

omit heval in
/-- A form's name stands for nothing but the form. -/
theorem inScope_evalName_form {name : String} {f : Form} (hf : Form.ofName? name = some f)
    (hname : name ∈ late ++ scope) :
    InScope late level.remaining scope (evalName host level name)
      (fun v => ∃ id, v = .native ⟨id, .builtin (.form f)⟩) scope := by
  refine .lookup hname (fun b hb => ?_) fun hlate => .fail (Error.isLate_unbound hlate)
  obtain ⟨⟨id, body⟩, rfl, form, hform, hbody⟩ | ⟨hordinary, -⟩ := hb
  · rw [hf] at hform
    cases hform
    cases hbody
    exact .pure ⟨id, rfl⟩
  · cases hf.symm.trans hordinary

omit heval in
theorem inScope_evalHead {head : Value} {Q : Value → Prop}
    (hname : ∀ a, head = .atom a → a.name ∈ late ++ scope)
    (h : InScope late level.remaining scope (level.eval head) Q scope₁) :
    InScope late level.remaining scope (evalHead level head) Q scope₁ := by
  cases head with
  | atom a =>
    refine .lookup (hname a rfl) (fun b hb => ?_) fun _ => h
    cases b with
    | value v =>
      cases v with
      | deferred t =>
        obtain ⟨f, hf, -⟩ | ⟨-, hv⟩ := hb
        · cases hf
        · rw [Binding.within_value, Value.Within] at hv
          exact hv.elim
      | _ => exact h
    | _ => exact h
  | _ => exact h

theorem inScope_evalApplication {head : Value} {args : List Value}
    (hhead : InScope late level.remaining scope (evalHead level head)
      (Value.Within (.scoped late)) scope₁)
    (hargs : ∀ e ∈ args, e.Within (.scoped late))
    (h : Scope.afterBody? late scope₁ args = some scope') :
    InScope late level.remaining scope (evalApplication host level head args)
      (Value.Within (.scoped late)) scope' := by
  refine .bind hhead fun callee hcallee => ?_
  cases callee with
  | native callable =>
    obtain ⟨id, body⟩ := callable
    rw [Value.Within] at hcallee
    obtain ⟨p, rfl⟩ := hcallee
    refine inScope_settle (.bind (inScope_evalAll heval hargs h) fun operands hoperands => ?_)
    refine .bind (.outcome fun e he => Arity.not_isUnbound_of_check he) fun _ _ => ?_
    exact .of_balanced (balanced_runPrimitive heval.applies p operands hoperands)
  | lambda identity closure =>
    rw [Value.Within] at hcallee
    exact .bind (inScope_evalAll heval hargs h) fun actuals hactuals =>
      .of_balanced (Lambda.balanced_call_scoped heval hcallee hactuals)
  | deferred t =>
    rw [Value.Within] at hcallee
    exact hcallee.elim
  | _ => exact .error id

theorem inScope_evalApplication_form {head : Value} {args : List Value} {f : Form}
    (hhead : InScope late level.remaining scope (evalHead level head)
      (fun v => ∃ id, v = .native ⟨id, .builtin (.form f)⟩) scope)
    (hargs : ∀ e ∈ args, e.Within (.scoped late))
    (h : Scope.afterForm? late scope f args = some scope') :
    InScope late level.remaining scope (evalApplication host level head args)
      (Value.Within (.scoped late)) scope' := by
  refine .bind hhead fun callee hcallee => ?_
  obtain ⟨id, rfl⟩ := hcallee
  exact inScope_settle (.bind (.outcome fun e he => Arity.not_isUnbound_of_check he) fun _ _ =>
    Form.inScope_run heval f hargs h)

omit heval in
theorem Scope.afterExpr?_list {head : Value} {args : List Value} (hhead : ∀ a, head ≠ .atom a) :
    Scope.afterExpr? late scope (.list (head :: args)) =
      (Scope.afterExpr? late scope head).bind fun scope => Scope.afterBody? late scope args := by
  cases head with
  | atom a => exact absurd rfl (hhead a)
  | _ => rfl

theorem inScope_evalShape {expr : Value} (hexpr : expr.Within (.scoped late))
    (h : Scope.afterExpr? late scope expr = some scope') :
    InScope late level.remaining scope (evalShape host level expr) (Value.Within (.scoped late))
      scope' := by
  cases expr with
  | atom a =>
    rw [Scope.afterExpr?] at h
    split at h
    · next hname =>
      cases h
      exact inScope_evalName hname.1 hname.2
    · cases h
  | quote inner =>
    cases h
    rw [Value.Within] at hexpr
    exact .pure hexpr
  | list items =>
    cases items with
    | nil =>
      cases h
      exact .pure hexpr
    | cons head args =>
      rw [Value.Within, Value.allWithin_iff] at hexpr
      obtain ⟨hhead, hargs⟩ := List.forall_mem_cons.1 hexpr
      refine .through ?_
      by_cases hatom : ∃ a, head = .atom a
      · obtain ⟨a, rfl⟩ := hatom
        rw [Scope.afterExpr?] at h
        split at h
        · next hname =>
          have hnames : ∀ b, Value.atom a = .atom b → b.name ∈ late ++ scope := by
            rintro _ ⟨⟩
            exact hname
          split at h
          · next f hf =>
            exact inScope_evalApplication_form heval
              (inScope_evalHead hnames (heval.form _ _ _ hf hname)) hargs h
          · next hf =>
            have hexpr : Scope.afterExpr? late scope (.atom a) = some scope := by
              rw [Scope.afterExpr?, if_pos ⟨hf, hname⟩]
            exact inScope_evalApplication heval
              (inScope_evalHead hnames (heval.expr _ _ _ hhead hexpr)) hargs h
        · cases h
      · have hne : ∀ a, head ≠ .atom a := fun a ha => hatom ⟨a, ha⟩
        rw [Scope.afterExpr?_list hne] at h
        obtain ⟨scope₁, hscope₁, h⟩ := Option.bind_eq_some_iff.1 h
        exact inScope_evalApplication heval (inScope_evalHead (fun a ha => absurd ha (hne a))
          (heval.expr _ _ _ hhead hscope₁)) hargs h
  | _ =>
    cases h
    exact .pure hexpr

end

/-! ### Evaluation -/

/-- The evaluator goes by the analysis on every level, by induction on the levels left. -/
theorem scoped_eval (host : Host) (late : List String) (n : Nat) :
    Evaluator.Scoped late n (eval host n) := by
  induction n with
  | zero => exact ⟨fun _ _ _ _ _ => .error id, fun _ _ _ _ _ => .error id⟩
  | succ n ih =>
    exact ⟨fun scope e scope' he h => .nested (@inScope_evalShape host ⟨n, _⟩ late _ _ ih e he h),
      fun scope a f hf hname => .nested (@inScope_evalName_form host ⟨n, _⟩ late _ a.name f hf hname)⟩

end HostLisp
