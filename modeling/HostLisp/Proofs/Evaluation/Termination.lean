import HostLisp.Proofs.Evaluation.Recursion

/-!
# Evaluation ends

Where all natives are built-in operations, evaluation settles: some rounds of the recursion are
enough for it, from every machine and at every depth,

    eval_settles :
      ∃ k, ∀ rest, (unroll host k rest).eval e m = eval host (maxEvalDepth - m.depth) e m.

What a comparator is bound to does not matter.  A form or a closure evaluates, which the depth
limits; any other operation compares values inside of the lists that it was asked about, so the sizes
of the values limit the rest, and values of the same size take fixed turns.
-/

namespace HostLisp

namespace Settles

variable {host : Host} {d : Nat}

/-! ### Sequences and closures -/

theorem makeLambda {exprs : List Value} (hexprs : ∀ e ∈ exprs, e.Within .plain) :
    Settles host d (Value.Within .plain) (fun _ => Form.makeLambda exprs)
      (Form.makeLambda exprs) := by
  cases exprs with
  | nil => exact fail _
  | cons formals body =>
    refine bind (outcome _) fun s _ => ?_
    refine bind (of_keeps .environment) fun env henv => ?_
    refine bind (P := Lambda.Within .plain) (ofExcept fun closure hbuild => ?_) fun closure hc => ?_
    · exact Lambda.within_build henv (fun e he => hexprs e (List.mem_cons_of_mem _ he)) trivial
        hbuild
    · refine bind (of_keeps .freshIdentity) fun identity _ => pure ?_
      rwa [Value.Within]

section
variable {evaluator : Evaluator}
  (heval : ∀ e, e.Within .plain →
    Settles host d (Value.Within .plain) (fun c => c.eval e) (evaluator e))
include heval

theorem evalAll {exprs : List Value} (hexprs : ∀ e ∈ exprs, e.Within .plain) :
    Settles host d (fun vs => ∀ v ∈ vs, v.Within .plain) (fun c => HostLisp.evalAll c.eval exprs)
      (HostLisp.evalAll evaluator exprs) := by
  induction exprs with
  | nil => exact pure nofun
  | cons e es ih =>
    obtain ⟨he, hes⟩ := List.forall_mem_cons.1 hexprs
    refine bind (heval e he) fun v hv => ?_
    exact bind (ih hes) fun vs hvs => pure (List.forall_mem_cons.2 ⟨hv, hvs⟩)

theorem evalSequence {last : Value} {exprs : List Value} (hlast : last.Within .plain)
    (hexprs : ∀ e ∈ exprs, e.Within .plain) :
    Settles host d (Value.Within .plain) (fun c => HostLisp.evalSequence c.eval last exprs)
      (HostLisp.evalSequence evaluator last exprs) := by
  induction exprs generalizing last with
  | nil => exact pure hlast
  | cons e es ih =>
    obtain ⟨he, hes⟩ := List.forall_mem_cons.1 hexprs
    exact bind (heval e he) fun v hv => ih hv hes

theorem call {closure : Lambda} {actuals : List Value} (hclosure : closure.Within .plain)
    (hactuals : ∀ a ∈ actuals, a.Within .plain) :
    Settles host d (Value.Within .plain) (fun c => closure.call c.eval actuals)
      (closure.call evaluator actuals) := by
  obtain ⟨s, captured, body⟩ := closure
  obtain ⟨-, hcaptured, hbody⟩ := hclosure
  unfold Lambda.call
  split
  · exact fail _
  · next bound env hbind =>
    have henv : env.Within .plain :=
      Signature.within_bind (Environment.within_ofCaptured hcaptured).pushFrame
        (fun _ _ => trivial) hactuals hbind
    refine inEnvironment henv (through _ (evalSequence heval ?_ ?_))
    · simp [Value.Within]
    · exact Value.allWithin_iff.1 hbody

/-! ### Forms -/

theorem bindAll {pairs : List Value} (hpairs : ∀ p ∈ pairs, p.Within .plain) :
    Settles host d (fun _ => True) (fun c => Form.bindAll c.eval pairs)
      (Form.bindAll evaluator pairs) := by
  induction pairs with
  | nil => exact pure trivial
  | cons p pairs ih =>
    obtain ⟨hp, hpairs⟩ := List.forall_mem_cons.1 hpairs
    have hrest := ih hpairs
    unfold Form.bindAll
    split
    · next h => cases h
    · next a init rest h =>
      cases h
      rw [Value.Within, Value.allWithin_iff] at hp
      refine bind (heval init (hp init (by simp))) fun v hv => ?_
      exact bind (of_keeps (.declareVar hv)) fun _ _ => hrest
    · exact fail _

theorem withBindings {exprs : List Value} (hexprs : ∀ e ∈ exprs, e.Within .plain) :
    Settles host d (Value.Within .plain) (fun c => Form.withBindings c.eval exprs)
      (Form.withBindings evaluator exprs) := by
  unfold Form.withBindings
  split
  · next pairs body =>
    obtain ⟨hpairs, hbody⟩ := List.forall_mem_cons.1 hexprs
    rw [Value.Within, Value.allWithin_iff] at hpairs
    refine inFrame (bind (bindAll heval hpairs) fun _ _ => ?_)
    exact evalSequence heval (by simp [Value.Within]) hbody
  · exact fail _

theorem runDeclare {exprs : List Value} (hexprs : ∀ e ∈ exprs, e.Within .plain) :
    Settles host d (Value.Within .plain) (fun c => Form.runDeclare c.eval exprs)
      (Form.runDeclare evaluator exprs) := by
  have hnil : Value.nil.Within .plain := by simp [Value.Within]
  unfold Form.runDeclare
  split
  · exact bind (of_keeps (.declareVar hnil)) fun _ _ => pure hnil
  · next a init =>
    refine bind (heval init (hexprs init (by simp))) fun v hv => ?_
    exact bind (of_keeps (.declareVar hv)) fun _ _ => pure hv
  · exact fail _
  · exact fail _
  · exact fail _

theorem runAssign {exprs : List Value} (hexprs : ∀ e ∈ exprs, e.Within .plain) :
    Settles host d (Value.Within .plain) (fun c => Form.runAssign c.eval exprs)
      (Form.runAssign evaluator exprs) := by
  unfold Form.runAssign
  split
  · next a expr =>
    refine bind (heval expr (hexprs expr (by simp))) fun v hv => ?_
    refine bind (of_keeps (.lookup a.name)) fun b _ => ?_
    cases b with
    | none => exact fail _
    | some b =>
      cases b with
      | var handle => exact of_keeps (.assign hv)
      | _ => exact fail _
  · exact fail _
  · exact fail _

theorem chooseBy {condition yes : Value} {no : Option Value} (hcondition : condition.Within .plain)
    (hyes : yes.Within .plain) (hno : ∀ e ∈ no, e.Within .plain) :
    Settles host d (Value.Within .plain) (fun c => Form.chooseBy c.eval condition yes no)
      (Form.chooseBy evaluator condition yes no) := by
  refine bind (heval condition hcondition) fun v _ => ?_
  split
  · exact heval yes hyes
  · cases no with
    | none => exact pure (by simp [Value.Within])
    | some e => exact heval e (hno e rfl)
  · exact fail _

theorem runChoose {exprs : List Value} (hexprs : ∀ e ∈ exprs, e.Within .plain) :
    Settles host d (Value.Within .plain) (fun c => Form.runChoose c.eval exprs)
      (Form.runChoose evaluator exprs) := by
  unfold Form.runChoose
  split
  · next condition yes =>
    exact chooseBy heval (hexprs condition (by simp)) (hexprs yes (by simp)) nofun
  · next condition yes no =>
    refine chooseBy heval (hexprs condition (by simp)) (hexprs yes (by simp)) ?_
    rintro e ⟨⟩
    exact hexprs no (by simp)
  · exact fail _

theorem junctionFrom {decisive : Bool} {exprs : List Value}
    (hexprs : ∀ e ∈ exprs, e.Within .plain) :
    Settles host d (Value.Within .plain) (fun c => Form.junctionFrom c.eval decisive exprs)
      (Form.junctionFrom evaluator decisive exprs) := by
  induction exprs with
  | nil => exact pure (by simp [Value.Within])
  | cons e es ih =>
    obtain ⟨he, hes⟩ := List.forall_mem_cons.1 hexprs
    refine bind (heval e he) fun v _ => ?_
    split
    · split
      · exact pure (by simp [Value.Within])
      · exact ih hes
    · exact fail _

theorem runJunction {decisive : Bool} {exprs : List Value}
    (hexprs : ∀ e ∈ exprs, e.Within .plain) :
    Settles host d (Value.Within .plain) (fun c => Form.runJunction c.eval decisive exprs)
      (Form.runJunction evaluator decisive exprs) := by
  unfold Form.runJunction
  split
  · exact fail _
  · split
    · exact fail _
    · exact junctionFrom heval hexprs

/-- Forms settle if evaluation does, one case for each form. -/
theorem form (f : Form) {exprs : List Value} (hexprs : ∀ e ∈ exprs, e.Within .plain) :
    Settles host d (Value.Within .plain) (fun c => f.run c.eval exprs) (f.run evaluator exprs) := by
  cases f with
  | quote =>
    rcases exprs with _ | ⟨e, _ | ⟨e', es⟩⟩
    · exact fail _
    · exact pure (hexprs e List.mem_cons_self)
    · exact fail _
  | lambda => exact makeLambda hexprs
  | bindings => exact withBindings heval hexprs
  | declare => exact runDeclare heval hexprs
  | assign => exact runAssign heval hexprs
  | choose => exact runChoose heval hexprs
  | conjunction => exact runJunction heval hexprs
  | disjunction => exact runJunction heval hexprs

end

end Settles

/-! ### Operands on their way through an evaluation -/

/-- What is quoted is handed over unchanged, where one more evaluation may nest. -/
theorem evalAll_quoted_succ (host : Host) (n : Nat) {operands : List Value} (hne : operands ≠ [])
    (m : Machine) :
    evalAll (eval host (n + 1)) (operands.map .quote) m =
      (.ok operands, { m with deepest := max m.deepest (m.depth + 1) }) := by
  induction operands generalizing m with
  | nil => exact absurd rfl hne
  | cons v vs ih =>
    have hv : eval host (n + 1) (.quote v) m =
      (.ok v, { m with deepest := max m.deepest (m.depth + 1) }) := rfl
    refine (Run.bind_of_ok hv).trans ?_
    cases vs with
    | nil => rfl
    | cons w ws =>
      refine (Run.bind_of_ok (ih (List.cons_ne_nil w ws) _)).trans ?_
      simp

theorem evalAll_quoted (host : Host) (n : Nat) (operands : List Value) :
    evalAll (eval host n) (operands.map .quote) =
      (Level.at host n).reach operands >>= fun _ => pure operands := by
  cases operands with
  | nil => rfl
  | cons v vs =>
    funext m
    cases n with
    | zero => rfl
    | succ n => exact evalAll_quoted_succ host n (List.cons_ne_nil v vs) m

namespace Settles

variable {host : Host} {d n : Nat}

/-! ### Callables -/

theorem settle {level : Level} {v : Value} (hv : v.Within .plain) :
    Settles host d (Value.Within .plain) (fun c => HostLisp.settle host c.level v)
      (HostLisp.settle host level v) := by
  cases v with
  | deferred t =>
    rw [Value.Within] at hv
    exact hv.elim
  | _ => exact pure hv

theorem within_quoted {operands : List Value} (hoperands : ∀ v ∈ operands, v.Within .plain) :
    ∀ e ∈ operands.map Value.quote, e.Within .plain := by
  intro e he
  obtain ⟨v, hv, rfl⟩ := List.mem_map.1 he
  rw [Value.Within]
  exact hoperands v hv

theorem natural {lenient : Bool} {a b : Value} (hab : ∀ as bs, a = .list as → b = .list bs → False) :
    Settles host d (fun _ => True) (fun c => c.less lenient a b)
      (lessThan host (Level.at host n) lenient a b) := by
  have horder : ∀ c : Calls, Calls.order host c lenient a b = Calls.natural a b := by
    intro c
    unfold Calls.order
    split
    · next as bs => exact (hab as bs rfl rfl).elim
    · rfl
  rw [lessThan]
  · refine less ?_
    simp only [horder, Calls.natural]
    cases a.naturalLess? b with
    | some answer => exact pure trivial
    | none => exact fail _
  · exact hab

section
variable (heval : ∀ e, e.Within .plain →
  Settles host d (Value.Within .plain) (fun c => c.eval e) (HostLisp.eval host n e))
include heval

theorem quoted {operands : List Value} (hoperands : ∀ v ∈ operands, v.Within .plain) :
    Settles host d (· = operands) (fun c => HostLisp.evalAll c.eval (operands.map .quote))
      ((Level.at host n).reach operands >>= fun _ => Pure.pure operands) := by
  rw [← evalAll_quoted]
  refine of_answers (evalAll heval (within_quoted hoperands)) ?_
  -- What they answer is read off the computation without calls.
  intro m vs hvs
  rw [evalAll_quoted, Run.bind_apply] at hvs
  rcases hreach : (Level.at host n).reach operands m with ⟨e | u, m'⟩ <;> rw [hreach] at hvs
  · cases hvs
  · exact (Except.ok.inj hvs).symm

/-- A native on values: a primitive gets them back from evaluation, a form evaluates what it likes. -/
theorem native_quoted {callable : Native} (hcallable : Repertoire.plain.native callable)
    {operands : List Value} (hoperands : ∀ v ∈ operands, v.Within .plain)
    {primitive : Primitive → Run Value}
    (hprimitive : ∀ p, Settles host d (Value.Within .plain)
      (fun c => Run.ofExcept (p.arity.check operands.length) >>= fun _ =>
        Calls.primitive c p operands) (primitive p)) :
    Settles host d (Value.Within .plain)
      (fun c => Calls.native host c callable (operands.map .quote))
      (callable.answer host (Level.at host n) primitive operands) := by
  obtain ⟨id, body⟩ := callable
  obtain ⟨op, rfl⟩ := hcallable
  cases op with
  | primitive p =>
    have hall := bind (quoted heval hoperands)
      (F := fun c vs => Run.ofExcept (p.arity.check vs.length) >>= fun _ =>
        Calls.primitive c p vs) (f := fun _ => primitive p) (S := Value.Within .plain) (by
        rintro vs rfl
        exact hprimitive p)
    rw [bind_assoc] at hall
    exact hall
  | form f =>
    have hcheck : Settles host d (fun _ => True)
        (fun _ => Run.ofExcept (f.arity.check (operands.map Value.quote).length))
        (Run.ofExcept (f.arity.check operands.length)) := by
      rw [List.length_map]
      exact outcome _
    exact bind hcheck fun _ _ => form heval f (within_quoted hoperands)

theorem applyTo {callee : Value} (hcallee : callee.Within .plain) {operands : List Value}
    (hoperands : ∀ v ∈ operands, v.Within .plain) {primitive : Primitive → Run Value}
    (hprimitive : ∀ p, Settles host d (Value.Within .plain)
      (fun c => Run.ofExcept (p.arity.check operands.length) >>= fun _ =>
        Calls.primitive c p operands) (primitive p)) :
    Settles host d (Value.Within .plain) (fun c => Calls.apply host c callee operands)
      (HostLisp.applyTo host (Level.at host n) primitive callee operands) := by
  cases callee with
  | native callable =>
    rw [Value.Within] at hcallee
    exact bind (native_quoted heval hcallee hoperands hprimitive) fun v hv => settle hv
  | lambda identity closure =>
    rw [Value.Within] at hcallee
    exact call heval hcallee hoperands
  | deferred t =>
    rw [Value.Within] at hcallee
    exact hcallee.elim
  | _ => exact fail _

/-! ### Comparison -/

-- The induction is the recursion of the operations, with the same measure: the sizes of the values,
-- and for values of the same size the turns that the functions take.
set_option linter.unusedSectionVars false in
mutual
theorem primitive (p : Primitive) (operands : List Value)
    (hoperands : ∀ v ∈ operands, v.Within .plain) :
    Settles host d (Value.Within .plain) (fun c => Calls.primitive c p operands)
      (runPrimitive host (Level.at host n) p operands) := by
  have hbool : ∀ c, Value.Within .plain (.bool c) := by simp [Value.Within]
  unfold runPrimitive
  match p, operands, hoperands with
  | .arithmetic op, vs, _ => exact ofExcept fun v hv => Arithmetic.within_perform hv
  | .comparison relation, [a, b], hoperands =>
    exact compare relation a b (hoperands a (by simp)) (hoperands b (by simp))
  | .comparison _, [], _ | .comparison _, [_], _ | .comparison _, _ :: _ :: _ :: _, _ =>
    exact fail _
  | .equality negated lenient, vs, _ => exact pure (hbool _)
  | .order, [a, b], hoperands =>
    have ha := hoperands a (by simp)
    have hb := hoperands b (by simp)
    refine bind (attempt (lessThan false a b ha hb)) fun less _ => ?_
    refine bind (attempt (lessThan false b a hb ha)) fun greater _ => ?_
    exact ofExcept fun v hv => within_orderOf hv
  | .order, [], _ | .order, [_], _ | .order, _ :: _ :: _ :: _, _ => exact fail _
  | .not, [], _ => exact fail _
  | .not, [v], _ =>
    cases v with
    | bool c => exact pure (hbool _)
    | _ => exact fail _
  | .not, v :: _ :: _, _ => cases v <;> exact fail _
  | .list, vs, hoperands =>
    refine pure ?_
    rwa [Value.Within, Value.allWithin_iff]
termination_by (sizeOf operands, 3)
decreasing_by all_goals simp [Prod.lex_def]; omega
theorem compare (relation : Comparison) (a b : Value) (ha : a.Within .plain)
    (hb : b.Within .plain) :
    Settles host d (Value.Within .plain) (fun c => Calls.compare c relation a b)
      (HostLisp.compare host (Level.at host n) relation a b) := by
  have hbool : ∀ c, Value.Within .plain (.bool c) := by simp [Value.Within]
  unfold HostLisp.compare Calls.compare
  split
  · exact pure (hbool _)
  split
  · exact pure (hbool _)
  split
  · exact map (lessThan relation.lenient b a hb ha) fun c _ => hbool c
  · exact map (lessThan relation.lenient a b ha hb) fun c _ => hbool c
termination_by (sizeOf a + sizeOf b + 3, 2)
decreasing_by all_goals simp [Prod.lex_def]; try omega
theorem lessThan (lenient : Bool) (a b : Value) (ha : a.Within .plain) (hb : b.Within .plain) :
    Settles host d (fun _ => True) (fun c => c.less lenient a b)
      (HostLisp.lessThan host (Level.at host n) lenient a b) := by
  cases hl : a with
  | list as =>
    cases hr : b with
    | list bs =>
      rw [hl, Value.Within, Value.allWithin_iff] at ha
      rw [hr, Value.Within, Value.allWithin_iff] at hb
      unfold HostLisp.lessThan
      exact less (items lenient as bs ha hb)
    | _ => exact natural nofun
  | _ => exact natural nofun
termination_by (sizeOf a + sizeOf b + 3, 1)
decreasing_by
  subst hl hr
  simp [Prod.lex_def]
  omega
theorem items (lenient : Bool) (as bs : List Value) (has : ∀ v ∈ as, v.Within .plain)
    (hbs : ∀ v ∈ bs, v.Within .plain) :
    Settles host d (fun _ => True) (fun c => Calls.items host c lenient as bs)
      (lessItems host (Level.at host n) lenient as bs) := by
  unfold lessItems
  match as, bs, has, hbs with
  | a :: as, b :: bs, has, hbs =>
    obtain ⟨ha, has⟩ := List.forall_mem_cons.1 has
    obtain ⟨hb, hbs⟩ := List.forall_mem_cons.1 hbs
    refine bind (element lenient a b ha hb) fun less _ => ?_
    split
    · exact pure trivial
    refine bind (element lenient b a hb ha) fun greater _ => ?_
    split
    · exact pure trivial
    exact items lenient as bs has hbs
  | [], bs, _, _ => exact pure trivial
  | _ :: _, [], _, _ => exact pure trivial
termination_by (sizeOf as + sizeOf bs + 3, 0)
decreasing_by all_goals simp [Prod.lex_def]; omega
theorem element (lenient : Bool) (a b : Value) (ha : a.Within .plain) (hb : b.Within .plain) :
    Settles host d (fun _ => True) (fun c => Calls.element host c lenient a b)
      (lessElement host (Level.at host n) lenient a b) := by
  have hab : ∀ v ∈ [a, b], v.Within .plain := by simp [ha, hb]
  unfold lessElement
  refine bind (P := fun callee => ∀ v ∈ callee, v.Within .plain)
    (bind (of_keeps .environment) fun env henv => pure fun v hv => henv.callable? (fun _ => id) hv)
    fun callee hcallee => ?_
  split
  · next v =>
    -- What is applied may be a primitive, and then the two elements are its operands.
    refine bind (applyTo heval (hcallee v rfl) hab fun p => ?_) fun w _ => ?_
    · exact bind (outcome _) fun _ _ => primitive p [a, b] hab
    · cases w with
      | bool answer => exact pure trivial
      | _ => exact fail _
  · split
    · exact pure trivial
    · exact lessThan lenient a b ha hb
termination_by (sizeOf a + sizeOf b + 3, 4)
decreasing_by all_goals simp [Prod.lex_def]; try omega
end

/-! ### Applications -/

theorem native {callable : Native} (hcallable : Repertoire.plain.native callable)
    {exprs : List Value} (hexprs : ∀ e ∈ exprs, e.Within .plain) :
    Settles host d (Value.Within .plain) (fun c => Calls.native host c callable exprs)
      (callable.call host (Level.at host n) exprs) := by
  obtain ⟨id, body⟩ := callable
  obtain ⟨op, rfl⟩ := hcallable
  cases op with
  | primitive p =>
    refine bind (evalAll heval hexprs) fun operands hoperands => ?_
    exact bind (outcome _) fun _ _ => primitive heval p operands hoperands
  | form f => exact bind (outcome _) fun _ _ => form heval f hexprs

omit heval in
theorem evalName (name : String) :
    Settles host d (Value.Within .plain) (fun c => HostLisp.evalName host c.level name)
      (HostLisp.evalName host (Level.at host n) name) := by
  refine bind (of_keeps (.lookup name)) fun b hb => ?_
  cases b with
  | none => exact fail _
  | some b =>
    cases b with
    | value v => exact settle (Binding.within_value.1 (hb _ rfl))
    | var handle =>
      refine bind (of_keeps .environment) fun env henv => ?_
      cases hv : env.var? handle with
      | none => exact fail _
      | some v => exact pure (henv.var? hv)
    | type ty => exact fail _
    | toolkit kit => exact fail _

theorem evalHead {head : Value} (hhead : head.Within .plain) :
    Settles host d (Value.Within .plain) (fun c => HostLisp.evalHead c.level head)
      (HostLisp.evalHead (Level.at host n) head) := by
  cases head with
  | atom a =>
    refine bind (of_keeps (.lookup a.name)) fun b hb => ?_
    split
    · exact pure (Binding.within_value.1 (hb _ rfl))
    · exact heval _ hhead
  | _ => exact heval _ hhead

theorem application {head : Value} {args : List Value} (hhead : head.Within .plain)
    (hargs : ∀ e ∈ args, e.Within .plain) :
    Settles host d (Value.Within .plain) (fun c => Calls.application host c head args)
      (evalApplication host (Level.at host n) head args) := by
  refine bind (evalHead heval hhead) fun callee hcallee => ?_
  cases callee with
  | native callable =>
    rw [Value.Within] at hcallee
    exact bind (native heval hcallee hargs) fun v hv => settle hv
  | lambda identity closure =>
    rw [Value.Within] at hcallee
    exact bind (evalAll heval hargs) fun actuals hactuals => call heval hcallee hactuals
  | deferred t =>
    rw [Value.Within] at hcallee
    exact hcallee.elim
  | _ => exact fail _

theorem shape {expr : Value} (hexpr : expr.Within .plain) :
    Settles host d (Value.Within .plain) (fun c => Calls.shape host c expr)
      (evalShape host (Level.at host n) expr) := by
  cases expr with
  | atom a => exact evalName a.name
  | quote inner =>
    rw [Value.Within] at hexpr
    exact pure hexpr
  | list items =>
    cases items with
    | nil => exact pure hexpr
    | cons head args =>
      rw [Value.Within, Value.allWithin_iff] at hexpr
      obtain ⟨hhead, hargs⟩ := List.forall_mem_cons.1 hexpr
      exact through _ (application heval hhead hargs)
  | _ => exact pure hexpr

end

/-! ### Evaluation -/

/-- Evaluation settles at every depth, by induction on how many more evaluations may nest there. -/
theorem evaluation {e : Value} (hn : n = maxEvalDepth - d) (he : e.Within .plain) :
    Settles host d (Value.Within .plain) (fun c => c.eval e) (HostLisp.eval host n e) := by
  induction n generalizing d e with
  | zero =>
    -- No level is left just where the depth has reached its limit.
    refine eval (congr (fun c m hm => ?_) (fail (.ofFailure .depthLimit)))
    have hdepth := hm.depth
    exact if_neg (by omega)
  | succ n ih =>
    have hn' : n = maxEvalDepth - (d + 1) := by omega
    refine eval (congr (fun c m hm => ?_) (nested (shape (fun e he => ih hn' he) he)))
    have hdepth := hm.depth
    exact if_pos (by omega)

end Settles

/-- Evaluation ends.  From every machine in whose environment all natives are built-in operations,
whatever names they are bound to, some rounds of the recursion are enough to evaluate an expression:
calls that are deeper are never made.  What comes out is the outcome of the evaluator that counts the
levels left. -/
theorem eval_terminates (host : Host) (m : Machine) (e : Value) (henv : m.env.Within .plain)
    (he : e.Within .plain) :
    ∃ k, ∀ rest : Calls,
      (Calls.unroll host k rest).eval e m = eval host (maxEvalDepth - m.depth) e m := by
  obtain ⟨⟨k, hk⟩, -⟩ := @Settles.evaluation host m.depth _ e rfl he m ⟨rfl, henv⟩
  exact ⟨k, hk k (Nat.le_refl k)⟩

/-- The comparator is bound to a closure that compares with the built-in one: from the lists to the
closure, and from there through the elements to the built-in operation again. -/
theorem eval_terminates_rebound :
    let less : Value := .native ⟨"<", .builtin (.primitive (.comparison ⟨false, false, false⟩))⟩
    let closure : Lambda := ⟨{ fixed := [{ name := "x" }, { name := "y" }] },
      [("<", .value less)], [.list [.ofName "<", .ofName "x", .ofName "y"]]⟩
    let env := (Environment.empty.defineValue "less" less).defineValue "<" (.lambda 1 closure)
    let e := Value.list [.ofName "less", .quote (.list [.list [.int 1]]),
      .quote (.list [.list [.int 2]])]
    ∃ k, ∀ rest : Calls,
      ((Calls.unroll Host.Sample.host k rest).eval e { env }).1 = .ok (.bool true) := by
  intro less closure env e
  have hless : less.Within .plain := by
    simp [less, Value.Within, Repertoire.plain]
  have hclosure : Value.Within .plain (.lambda 1 closure) := by
    simp [closure, less, Value.Within, Lambda.Within, Binding.AllWithin, Binding.Within,
      Value.AllWithin, Value.ofName, Repertoire.plain]
  have henv : env.Within .plain :=
    (Environment.within_empty.defineValue trivial hless).defineValue trivial hclosure
  have he : e.Within .plain := by simp [e, Value.Within, Value.AllWithin, Value.ofName]
  have houtcome : (eval Host.Sample.host maxEvalDepth e { env }).1 = .ok (.bool true) := by
    unfold env closure less
    cbv
  obtain ⟨k, hk⟩ := eval_terminates Host.Sample.host { env } e henv he
  exact ⟨k, fun rest => (congrArg Prod.fst (hk rest)).trans houtcome⟩

end HostLisp
