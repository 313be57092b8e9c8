import HostLisp.Proofs.Evaluation.Mirrored

/-!
# The evaluator mirrors itself

Form by form and operation by operation: with an evaluator that mirrors itself on the level below,
everything on a level mirrors itself, and the evaluator does on every level.
-/

namespace HostLisp

open Run (Mirrors)

/-- On both sides the evaluator does the same with an expression, whatever is missing on the first
one; a quote loses nothing. -/
structure Evaluator.Mirrored (R : Repertoire) (n : Nat) (eval : Evaluator) : Prop where
  balanced : Evaluator.Balanced R n eval
  expr : ∀ missing k e, e.Within R → Mirrors R n missing missing k (eval e) (eval e)
  quote : ∀ missing k v, Mirrors R n missing (fun _ => False) k (eval (.quote v)) (eval (.quote v))

/-! ### Variables, sequences and closures -/

section
variable {R : Repertoire} {n k : Nat} {missing lost : String → Prop}

theorem Form.mirrors_declareVar (name : String) (ty : Ty) (v : Value) :
    Mirrors R n missing lost k (Form.declareVar name ty v) (Form.declareVar name ty v) := by
  intro m m' hm hmm
  right
  unfold Form.declareVar Run.update
  obtain ⟨e, he, he'⟩ | ⟨handle, env, handle', env', hd, hd', henv⟩ :=
    hmm.env.defineVar name ty v
  · simp only [he, he']
    exact ⟨rfl, hmm, .refl _⟩
  · simp only [hd, hd']
    exact ⟨rfl, ⟨henv, hmm.world, hmm.depth⟩, Environment.keeps_defineVar hd'⟩

variable {eval : Evaluator} (heval : Evaluator.Mirrored R n eval)
include heval

theorem mirrors_evalAll {es : List Value} (hes : ∀ e ∈ es, e.Within R) :
    Mirrors R n missing missing k (evalAll eval es) (evalAll eval es) := by
  induction es with
  | nil => exact .pure _
  | cons e es ih =>
    obtain ⟨he, hes⟩ := List.forall_mem_cons.1 hes
    refine .bind (heval.expr _ _ e he) (heval.balanced e he) fun v _ => ?_
    exact .bind (ih hes) (balanced_evalAll heval.balanced hes) fun vs _ => .pure _

theorem mirrors_evalSequence {last : Value} {es : List Value} (hes : ∀ e ∈ es, e.Within R) :
    Mirrors R n missing missing k (evalSequence eval last es) (evalSequence eval last es) := by
  induction es generalizing last with
  | nil => exact .pure _
  | cons e es ih =>
    obtain ⟨he, hes⟩ := List.forall_mem_cons.1 hes
    exact .bind (heval.expr _ _ e he) (heval.balanced e he) fun v _ => ih hes

/-- Activations run in environments of their own, so nothing is missing there. -/
theorem Lambda.mirrors_call (hordinary : ∀ name, R.ordinary name) {closure : Lambda}
    {actuals : List Value} (hclosure : closure.Within R) (hactuals : ∀ a ∈ actuals, a.Within R) :
    Mirrors R n missing lost k (closure.call eval actuals) (closure.call eval actuals) := by
  obtain ⟨s, captured, body⟩ := closure
  obtain ⟨-, hcaptured, hbody⟩ := hclosure
  unfold Lambda.call
  split
  · exact .fail _
  · next bound env hbind =>
    have henv : env.Within R :=
      Signature.within_bind (Environment.within_ofCaptured hcaptured).pushFrame
        (fun c _ => hordinary c.1) hactuals hbind
    exact .inEnvironment henv
      (.through _ (mirrors_evalSequence heval (Value.allWithin_iff.1 hbody)))

omit heval in
/-- What is captured on the first side is captured on the second one. -/
theorem Environment.Mirrors.captureAll {env outer : Environment}
    (h : env.Mirrors missing k outer) (names : List String) :
    (∃ name, missing name ∧ env.captureAll names = .error (.unbound name)) ∨
      outer.captureAll names = env.captureAll names := by
  induction names with
  | nil => exact .inr rfl
  | cons name names ih =>
    have hcapture : outer.capture? name = env.capture? name ∨
        (env.capture? name = none ∧ missing name) := by
      unfold Environment.capture?
      obtain heq | ⟨hnone, hname, -⟩ := h.lookup name
      · left
        rw [heq]
        cases env.lookup name with
        | none => rfl
        | some b =>
          cases b with
          | var handle => exact congrArg (Option.map Binding.value) (h.var? handle)
          | _ => rfl
      · right
        rw [hnone]
        exact ⟨rfl, hname⟩
    unfold Environment.captureAll
    obtain heq | ⟨hnone, hname⟩ := hcapture
    · rw [heq]
      cases env.capture? name with
      | none => exact .inr rfl
      | some b =>
        obtain ⟨other, hother, he⟩ | heq := ih
        · exact .inl ⟨other, hother, by simp only [he]; rfl⟩
        · exact .inr (by simp only [heq])
    · exact .inl ⟨name, hname, by rw [hnone]⟩

omit heval in
theorem Form.mirrors_makeLambda (exprs : List Value) :
    Mirrors R n missing missing k (Form.makeLambda exprs) (Form.makeLambda exprs) := by
  cases exprs with
  | nil => exact .fail _
  | cons formals body =>
    refine .bind (.ofExcept _) (.outcome _) fun s _ => ?_
    refine .environment fun env outer _ h => ?_
    unfold Lambda.build
    obtain ⟨name, hname, he⟩ | heq := h.captureAll (freeNames s.formals body)
    · rw [he]
      exact .unbound hname _
    · rw [heq]
      refine .bind (.ofExcept _) (.outcome _)
        fun closure _ => ?_
      exact .bind .freshIdentity .freshIdentity fun identity _ => .pure _

/-! ### Forms -/

theorem Form.mirrors_bindAll (hordinary : ∀ name, R.ordinary name) {pairs : List Value}
    (hpairs : ∀ p ∈ pairs, p.Within R) :
    Mirrors R n missing missing k (Form.bindAll eval pairs) (Form.bindAll eval pairs) := by
  induction pairs with
  | nil => exact .pure _
  | cons p pairs ih =>
    obtain ⟨hp, hrest⟩ := List.forall_mem_cons.1 hpairs
    unfold Form.bindAll
    split
    · next h => cases h
    · next a init rest h =>
      cases h
      rw [Value.Within, Value.allWithin_iff] at hp
      have hinit := hp init (by simp)
      refine .bind (heval.expr _ _ init hinit) (heval.balanced init hinit) fun v hv => ?_
      exact .bind (Form.mirrors_declareVar _ _ _) (Form.balanced_declareVar (hordinary _) hv)
        fun _ _ => ih hrest
    · exact .fail _

theorem Form.mirrors_withBindings (hordinary : ∀ name, R.ordinary name) {exprs : List Value}
    (hexprs : ∀ e ∈ exprs, e.Within R) :
    Mirrors R n missing missing k (Form.withBindings eval exprs) (Form.withBindings eval exprs) := by
  unfold Form.withBindings
  split
  · next pairs body =>
    obtain ⟨hpairs, hbody⟩ := List.forall_mem_cons.1 hexprs
    rw [Value.Within, Value.allWithin_iff] at hpairs
    have hnil : Value.nil.Within R := by simp [Value.Within]
    have hbalanced := balanced_evalSequence heval.balanced hnil hbody
    refine .inFrame (.bind (Form.mirrors_bindAll heval hordinary hpairs)
      (Form.balanced_bindAll heval.balanced hordinary hpairs) fun _ _ => ?_)
      (.bind (Form.balanced_bindAll heval.balanced hordinary hpairs) fun _ _ => hbalanced)
    exact mirrors_evalSequence heval hbody
  · exact .fail _

theorem Form.mirrors_runDeclare (hordinary : ∀ name, R.ordinary name) {exprs : List Value}
    (hexprs : ∀ e ∈ exprs, e.Within R) :
    Mirrors R n missing missing k (Form.runDeclare eval exprs) (Form.runDeclare eval exprs) := by
  have hnil : Value.nil.Within R := by simp [Value.Within]
  unfold Form.runDeclare
  split
  · exact .bind (Form.mirrors_declareVar _ _ _) (Form.balanced_declareVar (hordinary _) hnil)
      fun _ _ => .pure _
  · next a init =>
    have hinit := hexprs init (by simp)
    refine .bind (heval.expr _ _ init hinit) (heval.balanced init hinit) fun v hv => ?_
    exact .bind (Form.mirrors_declareVar _ _ _) (Form.balanced_declareVar (hordinary _) hv)
      fun _ _ => .pure _
  · exact .fail _
  · exact .fail _
  · exact .fail _

omit heval in
/-- A variable keeps its cell on both sides, at handles that differ by what comes first. -/
theorem Run.Mirrors.setVar (handle : Handle) (v : Value) :
    Mirrors R n missing lost k
      (Run.update fun env => (env.setVar handle v).map fun env => (v, env))
      (Run.update fun env => (env.setVar ⟨handle.index + k⟩ v).map fun env => (v, env)) := by
  intro m m' hm hmm
  right
  unfold Run.update
  obtain ⟨e, he, he'⟩ | ⟨env, env', hs, hs', henv⟩ := hmm.env.setVar handle v
  · simp only [he, he']
    exact ⟨rfl, hmm, .refl _⟩
  · simp only [hs, hs']
    exact ⟨rfl, ⟨henv, hmm.world, hmm.depth⟩, Environment.keeps_setVar hs'⟩

theorem Form.mirrors_runAssign {exprs : List Value} (hexprs : ∀ e ∈ exprs, e.Within R) :
    Mirrors R n missing missing k (Form.runAssign eval exprs) (Form.runAssign eval exprs) := by
  unfold Form.runAssign
  split
  · next a expr =>
    have hexpr := hexprs expr (by simp)
    refine .bind (heval.expr _ _ expr hexpr) (heval.balanced expr hexpr) fun v hv => ?_
    refine .lookup (fun b _ => ?_) fun hname b _ => .unbound hname _
    cases b with
    | none => exact .fail _
    | some b =>
      cases b with
      | var handle => exact .setVar handle v
      | _ => exact .fail _
  · exact .fail _
  · exact .fail _

omit heval in
theorem Form.mirrors_chooseBy {P : Value → Prop} {condition yes : Value} {no : Option Value}
    (hcondition : Mirrors R n missing lost k (eval condition) (eval condition))
    (hbalanced : Run.Balanced R n (eval condition) P)
    (hyes : Mirrors R n missing lost k (eval yes) (eval yes))
    (hno : ∀ e ∈ no, Mirrors R n missing lost k (eval e) (eval e)) :
    Mirrors R n missing lost k (Form.chooseBy eval condition yes no)
      (Form.chooseBy eval condition yes no) := by
  refine .bind hcondition hbalanced fun v _ => ?_
  split
  · exact hyes
  · split
    · next e => exact hno e rfl
    · exact .pure _
  · exact .fail _

theorem Form.mirrors_runChoose {exprs : List Value} (hexprs : ∀ e ∈ exprs, e.Within R) :
    Mirrors R n missing missing k (Form.runChoose eval exprs) (Form.runChoose eval exprs) := by
  unfold Form.runChoose
  split
  · next c y =>
    have hc := hexprs c (by simp)
    exact Form.mirrors_chooseBy (heval.expr _ _ c hc) (heval.balanced c hc)
      (heval.expr _ _ y (hexprs y (by simp))) nofun
  · next c y e =>
    have hc := hexprs c (by simp)
    refine Form.mirrors_chooseBy (heval.expr _ _ c hc) (heval.balanced c hc)
      (heval.expr _ _ y (hexprs y (by simp))) ?_
    rintro e' ⟨⟩
    exact heval.expr _ _ e (hexprs e (by simp))
  · exact .fail _

theorem Form.mirrors_junctionFrom {decisive : Bool} {exprs : List Value}
    (hexprs : ∀ e ∈ exprs, e.Within R) :
    Mirrors R n missing missing k (Form.junctionFrom eval decisive exprs)
      (Form.junctionFrom eval decisive exprs) := by
  induction exprs with
  | nil => exact .pure _
  | cons e es ih =>
    obtain ⟨he, hes⟩ := List.forall_mem_cons.1 hexprs
    refine .bind (heval.expr _ _ e he) (heval.balanced e he) fun v _ => ?_
    split
    · split
      · exact .pure _
      · exact ih hes
    · exact .fail _

theorem Form.mirrors_runJunction {decisive : Bool} {exprs : List Value}
    (hexprs : ∀ e ∈ exprs, e.Within R) :
    Mirrors R n missing missing k (Form.runJunction eval decisive exprs)
      (Form.runJunction eval decisive exprs) := by
  unfold Form.runJunction
  split
  · exact .fail _
  · split
    · exact .fail _
    · exact Form.mirrors_junctionFrom heval hexprs

theorem Form.mirrors_run (hordinary : ∀ name, R.ordinary name) (f : Form) {exprs : List Value}
    (hexprs : ∀ e ∈ exprs, e.Within R) :
    Mirrors R n missing missing k (f.run eval exprs) (f.run eval exprs) := by
  cases f with
  | quote =>
    rcases exprs with _ | ⟨e, _ | ⟨e', es⟩⟩
    · exact .fail _
    · exact .pure _
    · exact .fail _
  | lambda => exact Form.mirrors_makeLambda exprs
  | bindings => exact Form.mirrors_withBindings heval hordinary hexprs
  | declare => exact Form.mirrors_runDeclare heval hordinary hexprs
  | assign => exact Form.mirrors_runAssign heval hexprs
  | choose => exact Form.mirrors_runChoose heval hexprs
  | conjunction => exact Form.mirrors_runJunction heval hexprs
  | disjunction => exact Form.mirrors_runJunction heval hexprs

/-- A form that receives values, quoted, evaluates at most quotes. -/
theorem Form.mirrors_run_quoted (f : Form) {operands : List Value}
    (hoperands : ∀ v ∈ operands, v.Within R) :
    Mirrors R n missing lost k (f.run eval (operands.map .quote))
      (f.run eval (operands.map .quote)) := by
  have hquote : ∀ v, Mirrors R n missing lost k (eval (.quote v)) (eval (.quote v)) :=
    fun v => (heval.quote missing k v).mono nofun
  have hbalanced : ∀ v ∈ operands, Run.Balanced R n (eval (.quote v)) (Value.Within R) :=
    fun v hv => heval.balanced _ (by rw [Value.Within]; exact hoperands v hv)
  cases f with
  | quote =>
    rcases operands with _ | ⟨v, _ | ⟨w, vs⟩⟩
    · exact .fail _
    · exact .pure _
    · exact .fail _
  | lambda =>
    rcases operands with _ | ⟨v, vs⟩
    · exact .fail _
    · exact .fail _
  | bindings =>
    rcases operands with _ | ⟨v, vs⟩
    · exact .fail _
    · exact .fail _
  | declare =>
    rcases operands with _ | ⟨v, _ | ⟨w, _ | ⟨x, vs⟩⟩⟩
    · exact .fail _
    · exact .fail _
    · exact .fail _
    · exact .fail _
  | assign =>
    rcases operands with _ | ⟨v, _ | ⟨w, _ | ⟨x, vs⟩⟩⟩
    · exact .fail _
    · exact .fail _
    · exact .fail _
    · exact .fail _
  | choose =>
    rcases operands with _ | ⟨c, _ | ⟨y, _ | ⟨e, _ | ⟨x, vs⟩⟩⟩⟩
    · exact .fail _
    · exact .fail _
    · exact Form.mirrors_chooseBy (hquote c) (hbalanced c (by simp)) (hquote y) nofun
    · refine Form.mirrors_chooseBy (hquote c) (hbalanced c (by simp)) (hquote y) ?_
      rintro e' ⟨⟩
      exact hquote e
    · exact .fail _
  | conjunction =>
    rcases operands with _ | ⟨v, vs⟩
    · exact .fail _
    · exact .fail _
  | disjunction =>
    rcases operands with _ | ⟨v, vs⟩
    · exact .fail _
    · exact .fail _

end

/-! ### Operations -/

section
variable {host : Host} {R : Repertoire} {level : Level} {k : Nat} {missing lost : String → Prop}
variable {α : Type}

theorem mirrors_reach (operands : List Value) :
    Mirrors R level.remaining missing lost k (level.reach operands) (level.reach operands) := by
  unfold Level.reach
  split
  · exact .pure _
  split
  · exact .fail _
  · next hne =>
    obtain ⟨n, hn⟩ := Nat.exists_eq_succ_of_ne_zero hne
    rw [hn]
    exact .nested (.pure _)

/-- Where evaluations may nest, passing operands on makes no difference that could be observed. -/
theorem Run.Mirrors.reach {x y : Run α} (hlevel : 0 < level.remaining) (operands : List Value)
    (h : Mirrors R level.remaining missing lost k x y) :
    Mirrors R level.remaining missing lost k x (level.reach operands >>= fun _ => y) := by
  intro m m' hm hmm
  unfold Level.reach
  split
  · exact h m m' hm hmm
  · rw [if_neg (Nat.ne_of_gt hlevel)]
    exact h m { m' with deepest := max m'.deepest (m'.depth + 1) } hm
      ⟨hmm.env, hmm.world, hmm.depth⟩

theorem Environment.lookup_comparator (env : Environment) (lenient : Bool) :
    env.lookup (comparator lenient) = env.get? (comparator lenient) := by
  have hsplit : splitMember? (comparator lenient) = none := by cases lenient <;> rfl
  unfold Environment.lookup
  rw [hsplit]
  cases env.get? (comparator lenient) <;> rfl

/-- The comparator is the same on both sides, or the built-in one where the first side has none. -/
theorem Environment.Mirrors.callable? {env outer : Environment} (h : env.Mirrors missing k outer)
    (lenient : Bool) :
    outer.callable? (HostLisp.comparator lenient) = env.callable? (HostLisp.comparator lenient) ∨
      (env.callable? (HostLisp.comparator lenient) = none ∧
        ∃ id, outer.callable? (HostLisp.comparator lenient) =
          some (.native ⟨id, .builtin (.primitive (.comparison ⟨lenient, false, false⟩))⟩)) := by
  unfold Environment.callable?
  rw [lookup_comparator, lookup_comparator]
  obtain heq | ⟨hnone, -⟩ := h.get? (HostLisp.comparator lenient)
  · left
    rw [heq]
    cases env.get? (HostLisp.comparator lenient) with
    | none => rfl
    | some b =>
      cases b with
      | var handle =>
        show (outer.var? ⟨handle.index + k⟩).filter _ = _
        rw [h.var?]
      | _ => rfl
  · rw [hnone]
    cases houter : outer.get? (HostLisp.comparator lenient) with
    | none => exact .inl rfl
    | some b =>
      obtain ⟨id, rfl⟩ := h.comparator lenient b hnone houter
      exact .inr ⟨rfl, id, rfl⟩

theorem Run.Mirrors.boundComparator {n : Nat} {lenient : Bool} {f g : Option Value → Run α}
    (hnamed : ∀ name f, ¬ R.named name f)
    (hsame : ∀ callee, (∀ v ∈ callee, v.Within R) →
      Mirrors R n missing lost k (f callee) (g callee))
    (hmissing : ∀ id, Mirrors R n missing lost k (f none)
      (g (some (.native ⟨id, .builtin (.primitive (.comparison ⟨lenient, false, false⟩))⟩)))) :
    Mirrors R n missing lost k (HostLisp.boundComparator (comparator lenient) >>= f)
      (HostLisp.boundComparator (comparator lenient) >>= g) := by
  refine .environment (f := fun env => f (env.callable? _)) (g := fun env => g (env.callable? _))
    fun env outer henv h => ?_
  obtain heq | ⟨hnone, id, hcallee⟩ := h.callable? lenient
  · rw [heq]
    exact hsame _ fun v hv => henv.callable? (hnamed _) hv
  · rw [hnone, hcallee]
    exact hmissing id

theorem mirrors_natural {n : Nat} (lenient : Bool) {a b : Value}
    (h : ∀ as bs, a = .list as → b = .list bs → False) :
    Mirrors R n missing lost k (lessThan host level lenient a b)
      (lessThan host level lenient a b) := by
  rw [lessThan]
  · split
    · exact .pure _
    · exact .fail _
  · exact h

variable (hhost : host.Serves R) (htask : ∀ t, ¬ R.task t)
  (heval : Evaluator.Mirrored R level.remaining level.eval)
include hhost htask heval

omit hhost heval in
theorem mirrors_settle {v : Value} (hv : v.Within R) :
    Mirrors R level.remaining missing lost k (settle host level v) (settle host level v) := by
  cases v with
  | deferred t =>
    rw [Value.Within] at hv
    exact absurd hv (htask t)
  | _ => exact .pure _

omit htask in
theorem mirrors_answer {primitive : Primitive → Run Value} {callable : Native}
    {operands : List Value}
    (hprimitive : ∀ p, Mirrors R level.remaining missing lost k (primitive p) (primitive p))
    (hcallable : R.native callable) (hoperands : ∀ v ∈ operands, v.Within R) :
    Mirrors R level.remaining missing lost k
      (callable.answer host level primitive operands)
      (callable.answer host level primitive operands) := by
  obtain ⟨id, body⟩ := callable
  cases body with
  | builtin op =>
    cases op with
    | primitive p =>
      exact .bind (mirrors_reach operands) (balanced_reach operands trivial) fun _ _ => hprimitive p
    | form f =>
      refine .bind (.ofExcept _) (.outcome _) fun _ _ => ?_
      exact Form.mirrors_run_quoted heval f hoperands
  | operation key =>
    exact .bind (mirrors_reach operands) (balanced_reach operands trivial) fun _ _ => .ofExcept _
  | raw key datum => exact absurd hcallable (hhost.raw id key datum)

theorem mirrors_applyTo {primitive : Primitive → Run Value} {callee : Value}
    {operands : List Value}
    (hprimitive : ∀ p, Mirrors R level.remaining missing lost k (primitive p) (primitive p))
    (hbalanced : ∀ p, Run.Balanced R level.remaining (primitive p) (Value.Within R))
    (hcallee : callee.Within R) (hoperands : ∀ v ∈ operands, v.Within R) :
    Mirrors R level.remaining missing lost k (applyTo host level primitive callee operands)
      (applyTo host level primitive callee operands) := by
  cases callee with
  | native callable =>
    rw [Value.Within] at hcallee
    exact .bind (mirrors_answer hhost heval hprimitive hcallee hoperands)
      (balanced_answer hhost heval.balanced hbalanced hcallee hoperands) fun v hv =>
        mirrors_settle htask hv
  | lambda identity closure =>
    rw [Value.Within] at hcallee
    exact Lambda.mirrors_call heval hhost.ordinary hcallee hoperands
  | deferred t =>
    rw [Value.Within] at hcallee
    exact absurd hcallee (htask t)
  | _ => exact .fail _

omit hhost htask heval in
/-- Applied to two elements, the built-in comparator answers what it takes without it. -/
theorem applyTo_comparator (id : String) (lenient : Bool) (a b : Value)
    {f : Value → Run Bool} (hf : ∀ answer, f (.bool answer) = pure answer) :
    (applyTo host level
        (fun p => do
          Run.ofExcept (p.arity.check 2)
          runPrimitive host level p [a, b])
        (.native ⟨id, .builtin (.primitive (.comparison ⟨lenient, false, false⟩))⟩) [a, b] >>= f) =
      level.reach [a, b] >>= fun _ =>
        if lenient && (a.isNil || b.isNil) then pure false
        else lessThan host level lenient a b := by
  have hcompare : runPrimitive host level (.comparison ⟨lenient, false, false⟩) [a, b] =
      if lenient && (a.isNil || b.isNil) then pure (.bool false)
      else Value.bool <$> lessThan host level lenient a b := by
    rw [runPrimitive, compare]
    simp
  unfold applyTo Native.answer
  rw [bind_assoc, bind_assoc]
  refine congrArg (level.reach [a, b] >>= ·) (funext fun _ => ?_)
  show runPrimitive host level (.comparison ⟨lenient, false, false⟩) [a, b] >>=
    (fun v => settle host level v >>= f) = _
  rw [hcompare]
  split
  · exact hf false
  · rw [bind_map_left]
    exact (congrArg _ (funext hf)).trans (bind_pure _)

variable (hlevel : 0 < level.remaining)
include hlevel

set_option linter.unusedSectionVars false in
mutual
theorem mirrors_runPrimitive (p : Primitive) (operands : List Value)
    (hoperands : ∀ v ∈ operands, v.Within R) :
    Mirrors R level.remaining missing (fun _ => False) k (runPrimitive host level p operands)
      (runPrimitive host level p operands) := by
  match p, operands, hoperands with
  | .arithmetic op, vs, _ =>
    unfold runPrimitive
    exact .ofExcept _
  | .comparison relation, [a, b], hoperands =>
    unfold runPrimitive
    exact mirrors_compare relation a b (hoperands a (by simp)) (hoperands b (by simp))
  | .comparison _, [], _ | .comparison _, [_], _ | .comparison _, _ :: _ :: _ :: _, _ =>
    unfold runPrimitive
    exact .fail _
  | .equality negated lenient, vs, _ =>
    unfold runPrimitive
    exact .pure _
  | .order, [a, b], hoperands =>
    have ha := hoperands a (by simp)
    have hb := hoperands b (by simp)
    unfold runPrimitive
    refine .bind (.attempt (mirrors_lessThan false a b ha hb))
      (.attempt (balanced_lessThan (hhost.applies heval.balanced) false a b ha hb)) fun less _ => ?_
    exact .bind (.attempt (mirrors_lessThan false b a hb ha))
      (.attempt (balanced_lessThan (hhost.applies heval.balanced) false b a hb ha)) fun greater _ =>
        .ofExcept _
  | .order, [], _ | .order, [_], _ | .order, _ :: _ :: _ :: _, _ =>
    unfold runPrimitive
    exact .fail _
  | .not, [], _ =>
    unfold runPrimitive
    exact .fail _
  | .not, v :: vs, _ =>
    unfold runPrimitive
    cases v with
    | bool b =>
      cases vs with
      | nil => exact .pure _
      | cons w ws => exact .fail _
    | _ => cases vs <;> exact .fail _
  | .list, vs, _ =>
    unfold runPrimitive
    exact .pure _
termination_by (sizeOf operands, 3)
decreasing_by all_goals simp [Prod.lex_def]; omega
theorem mirrors_compare (relation : Comparison) (a b : Value) (ha : a.Within R)
    (hb : b.Within R) :
    Mirrors R level.remaining missing (fun _ => False) k (compare host level relation a b)
      (compare host level relation a b) := by
  unfold compare
  split
  · exact .pure _
  split
  · exact .pure _
  split
  · exact .map _ (mirrors_lessThan relation.lenient b a hb ha)
      (balanced_lessThan (hhost.applies heval.balanced) relation.lenient b a hb ha)
  · exact .map _ (mirrors_lessThan relation.lenient a b ha hb)
      (balanced_lessThan (hhost.applies heval.balanced) relation.lenient a b ha hb)
termination_by (sizeOf a + sizeOf b + 3, 2)
decreasing_by all_goals simp [Prod.lex_def]; try omega
theorem mirrors_lessThan (lenient : Bool) (a b : Value) (ha : a.Within R) (hb : b.Within R) :
    Mirrors R level.remaining missing (fun _ => False) k (lessThan host level lenient a b)
      (lessThan host level lenient a b) := by
  cases hl : a with
  | list as =>
    cases hr : b with
    | list bs =>
      rw [hl, Value.Within, Value.allWithin_iff] at ha
      rw [hr, Value.Within, Value.allWithin_iff] at hb
      unfold lessThan
      exact mirrors_lessItems lenient as bs ha hb
    | _ => exact mirrors_natural lenient nofun
  | _ => exact mirrors_natural lenient nofun
termination_by (sizeOf a + sizeOf b + 3, 1)
decreasing_by
  subst hl hr
  simp [Prod.lex_def]
  omega
theorem mirrors_lessItems (lenient : Bool) (as bs : List Value)
    (has : ∀ v ∈ as, v.Within R) (hbs : ∀ v ∈ bs, v.Within R) :
    Mirrors R level.remaining missing (fun _ => False) k (lessItems host level lenient as bs)
      (lessItems host level lenient as bs) := by
  match as, bs, has, hbs with
  | a :: as, b :: bs, has, hbs =>
    unfold lessItems
    have ha := has a List.mem_cons_self
    have hb := hbs b List.mem_cons_self
    refine .bind (mirrors_lessElement lenient a b ha hb)
      (balanced_lessElement (hhost.applies heval.balanced) lenient a b ha hb) fun less _ => ?_
    split
    · exact .pure _
    refine .bind (mirrors_lessElement lenient b a hb ha)
      (balanced_lessElement (hhost.applies heval.balanced) lenient b a hb ha) fun greater _ => ?_
    split
    · exact .pure _
    exact mirrors_lessItems lenient as bs (fun v hv => has v (List.mem_cons_of_mem _ hv))
      fun v hv => hbs v (List.mem_cons_of_mem _ hv)
  | [], bs, _, _ =>
    unfold lessItems
    exact .pure _
  | _ :: _, [], _, _ =>
    unfold lessItems
    exact .pure _
termination_by (sizeOf as + sizeOf bs + 3, 0)
decreasing_by all_goals simp [Prod.lex_def]; omega
theorem mirrors_lessElement (lenient : Bool) (a b : Value) (ha : a.Within R)
    (hb : b.Within R) :
    Mirrors R level.remaining missing (fun _ => False) k (lessElement host level lenient a b)
      (lessElement host level lenient a b) := by
  have hab : ∀ v ∈ [a, b], v.Within R := by simp [ha, hb]
  have hless := mirrors_lessThan lenient a b ha hb
  have hprimitive := fun p => mirrors_runPrimitive p [a, b] hab
  unfold lessElement
  refine .boundComparator hhost.named (fun callee hcallee => ?_) fun id => ?_
  · cases callee with
    | none =>
      show Mirrors _ _ _ _ _ (if _ then _ else _) (if _ then _ else _)
      split
      · exact .pure _
      · exact hless
    | some v =>
      refine .bind (mirrors_applyTo hhost htask heval (fun p => ?_) (fun p => ?_)
        (hcallee v rfl) hab) (balanced_applyTo hhost heval.balanced (fun p => ?_)
        (hcallee v rfl) hab) fun w _ => ?_
      · exact .bind (.ofExcept _) (.outcome _) fun _ _ =>
          hprimitive p
      · exact .bind (.outcome _) fun _ _ =>
          balanced_runPrimitive (hhost.applies heval.balanced) p [a, b] hab
      · exact .bind (.outcome _) fun _ _ =>
          balanced_runPrimitive (hhost.applies heval.balanced) p [a, b] hab
      · split
        · exact .pure _
        · exact .fail _
  · -- what is built in answers the same without being asked
    show Mirrors _ _ _ _ _ (if _ then _ else _) (applyTo _ _ _ _ _ >>= _)
    rw [applyTo_comparator id lenient a b fun _ => rfl]
    refine .reach hlevel _ ?_
    split
    · exact .pure _
    · exact hless
termination_by (sizeOf a + sizeOf b + 3, 4)
decreasing_by all_goals simp [Prod.lex_def]; try omega
end

/-! ### Applications -/

theorem mirrors_builtinCall (op : Builtin) {exprs : List Value} (hexprs : ∀ e ∈ exprs, e.Within R) :
    Mirrors R level.remaining missing missing k (op.call host level exprs)
      (op.call host level exprs) := by
  cases op with
  | primitive p =>
    refine .bind (mirrors_evalAll heval hexprs) (balanced_evalAll heval.balanced hexprs)
      fun operands hoperands => ?_
    refine .bind (.ofExcept _) (.outcome _) fun _ _ => ?_
    exact (mirrors_runPrimitive hhost htask heval hlevel p operands hoperands).mono nofun
  | form f =>
    refine .bind (.ofExcept _) (.outcome _) fun _ _ => ?_
    exact Form.mirrors_run heval hhost.ordinary f hexprs

theorem Native.mirrors_call {callable : Native} (hcallable : R.native callable)
    {exprs : List Value} (hexprs : ∀ e ∈ exprs, e.Within R) :
    Mirrors R level.remaining missing missing k (callable.call host level exprs)
      (callable.call host level exprs) := by
  obtain ⟨id, body⟩ := callable
  cases body with
  | builtin op => exact mirrors_builtinCall hhost htask heval hlevel op hexprs
  | operation key =>
    exact .bind (mirrors_evalAll heval hexprs) (balanced_evalAll heval.balanced hexprs)
      fun actuals _ => .ofExcept _
  | raw key datum => exact absurd hcallable (hhost.raw id key datum)

omit heval hlevel in
theorem mirrors_evalName (name : String) :
    Mirrors R level.remaining missing missing k (evalName host level name)
      (evalName host level name) := by
  refine .lookup (fun b hb => ?_) fun hname b _ => .unbound hname _
  cases b with
  | none => exact .fail _
  | some b =>
    cases b with
    | value v =>
      obtain ⟨f, -, hf⟩ | hv := hb _ rfl
      · exact absurd hf (hhost.named name f)
      · exact mirrors_settle htask (Binding.within_value.1 hv)
    | var handle =>
      refine .environment fun env outer _ h => ?_
      rw [h.var?]
      cases env.var? handle with
      | none => exact .fail _
      | some v => exact .pure _
    | type ty => exact .fail _
    | toolkit kit => exact .fail _

omit hlevel in
theorem mirrors_evalHead {head : Value} (hhead : head.Within R) :
    Mirrors R level.remaining missing missing k (evalHead level head) (evalHead level head) := by
  cases head with
  | atom a =>
    refine .lookup (fun b hb => ?_) fun hname b hb => ?_
    · cases b with
      | none => exact heval.expr _ _ _ hhead
      | some b =>
        cases b with
        | value v =>
          obtain ⟨f, -, hf⟩ | hv := hb _ rfl
          · exact absurd hf (hhost.named a.name f)
          · cases v with
            | deferred t =>
              rw [Binding.within_value, Value.Within] at hv
              exact absurd hv (htask t)
            | _ => exact heval.expr _ _ _ hhead
        | _ => exact heval.expr _ _ _ hhead
    · cases b with
      | none => exact heval.expr _ _ _ hhead
      | some b =>
        cases b with
        | value v =>
          cases v with
          | deferred t => exact absurd rfl (hb t)
          | _ => exact heval.expr _ _ _ hhead
        | _ => exact heval.expr _ _ _ hhead
  | _ => exact heval.expr _ _ _ hhead

theorem mirrors_evalApplication {head : Value} {args : List Value} (hhead : head.Within R)
    (hargs : ∀ e ∈ args, e.Within R) :
    Mirrors R level.remaining missing missing k (evalApplication host level head args)
      (evalApplication host level head args) := by
  refine .bind (mirrors_evalHead hhost htask heval hhead)
    (balanced_evalHead hhost heval.balanced hhead) fun callee hcallee => ?_
  cases callee with
  | native callable =>
    rw [Value.Within] at hcallee
    exact .bind (Native.mirrors_call hhost htask heval hlevel hcallee hargs)
      (Native.balanced_call hhost heval.balanced hcallee hargs) fun v hv => mirrors_settle htask hv
  | lambda identity closure =>
    rw [Value.Within] at hcallee
    exact .bind (mirrors_evalAll heval hargs) (balanced_evalAll heval.balanced hargs)
      fun actuals hactuals => Lambda.mirrors_call heval hhost.ordinary hcallee hactuals
  | deferred t =>
    rw [Value.Within] at hcallee
    exact absurd hcallee (htask t)
  | _ => exact .fail _

omit heval hlevel in
/-- An expression mirrors itself if it does in applications. -/
theorem mirrors_evalShape {expr : Value} (hexpr : expr.Within R)
    (happlication : ∀ head args, head.Within R → (∀ e ∈ args, e.Within R) →
      Mirrors R level.remaining missing missing k (evalApplication host level head args)
        (evalApplication host level head args)) :
    Mirrors R level.remaining missing missing k (evalShape host level expr)
      (evalShape host level expr) := by
  cases expr with
  | atom a => exact mirrors_evalName hhost htask a.name
  | quote inner => exact .pure _
  | list items =>
    cases items with
    | nil => exact .pure _
    | cons head args =>
      rw [Value.Within, Value.allWithin_iff] at hexpr
      exact .through _ (happlication head args (hexpr head List.mem_cons_self)
        fun e he => hexpr e (List.mem_cons_of_mem _ he))
  | _ => exact .pure _

end

/-! ### Evaluation -/

section
variable {host : Host} {R : Repertoire} (hhost : host.Serves R) (htask : ∀ t, ¬ R.task t)
include hhost htask

/-- Where no evaluation may nest, no head has a value. -/
theorem mirrors_evalApplication_zero {k : Nat} {missing : String → Prop}
    (heval : Evaluator.Mirrored R 0 (eval host 0)) {head : Value} (args : List Value)
    (hhead : head.Within R) :
    Mirrors R 0 missing missing k (evalApplication host ⟨0, eval host 0⟩ head args)
      (evalApplication host ⟨0, eval host 0⟩ head args) := by
  have hnever : Run.Balanced R 0 (evalHead ⟨0, eval host 0⟩ head) fun _ => False := by
    cases head with
    | atom a =>
      refine .bind (.lookup a.name) fun b hb => ?_
      split
      · next t =>
        obtain ⟨f, hf, -⟩ | hv := hb _ rfl
        · cases hf
        · rw [Binding.within_value, Value.Within] at hv
          exact absurd hv (htask t)
      · exact .fail trivial
    | _ => exact .fail trivial
  exact .bind (@mirrors_evalHead host R ⟨0, eval host 0⟩ k missing hhost htask heval head hhead)
    hnever fun _ h => h.elim

/-- The evaluator mirrors itself on every level, by induction on the levels left. -/
theorem mirrored_eval (n : Nat) : Evaluator.Mirrored R n (eval host n) := by
  induction n with
  | zero => exact ⟨balanced_eval hhost 0, fun _ _ _ _ => .fail _, fun _ _ _ => .fail _⟩
  | succ n ih =>
    refine ⟨balanced_eval hhost (n + 1), fun missing k e he => .nested ?_,
      fun missing k v => .nested (.pure _)⟩
    refine @mirrors_evalShape host R ⟨n, eval host n⟩ k missing hhost htask e he
      fun head args hhead hargs => ?_
    cases n with
    | zero => exact mirrors_evalApplication_zero hhost htask ih args hhead
    | succ n =>
      exact mirrors_evalApplication hhost htask ih (Nat.succ_pos n) hhead hargs

end

end HostLisp
