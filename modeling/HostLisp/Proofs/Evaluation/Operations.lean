import HostLisp.Proofs.Evaluation.Balance

/-!
# Operations on values

Arithmetic, comparison and equality do not look names up, apart from that of the comparator, which
may be bound to anything that can be applied.  So on two levels they do the same, up to any relation
of computations that sequencing keeps, if applications to values do; and they fail as applications do
or for reasons of their own.  Balance is such a relation, of a computation with anything.
-/

namespace HostLisp

theorem Arity.not_isUnbound_of_check {arity : Arity} {count : Nat} {e : Error}
    (h : arity.check count = .error e) : ¬ e.IsUnbound := by
  unfold Arity.check at h
  split at h <;> cases h
  exact id

variable {R : Repertoire}

/-! ### Arithmetic and order -/

theorem Arithmetic.not_isUnbound_of_foldInts {op : Arithmetic} {first : Int64} {ns : List Int64}
    {e : Error} (h : op.foldInts first ns = .error e) : ¬ e.IsUnbound := by
  induction ns generalizing first with
  | nil => cases h
  | cons n ns ih =>
    unfold foldInts at h
    split at h
    · exact ih h
    · next e' hstep =>
      cases h
      unfold Arithmetic.step at hstep
      split at hstep
      · cases hstep
        exact id
      split at hstep <;> cases hstep
      exact id

theorem Arithmetic.not_isUnbound_of_floats {operands : List Value} {e : Error}
    (h : floats operands = .error e) : ¬ e.IsUnbound := by
  induction operands with
  | nil => cases h
  | cons v vs ih =>
    unfold floats at h
    split at h
    · cases hf : floats vs with
      | error e' =>
        rw [hf] at h
        cases h
        exact ih hf
      | ok xs =>
        rw [hf] at h
        cases h
    · cases h
      exact id

/-- The results of arithmetic are numbers. -/
theorem Arithmetic.within_perform {op : Arithmetic} {operands : List Value}
    {v : Value} (h : op.perform operands = .ok v) : v.Within R := by
  unfold Arithmetic.perform at h
  split at h
  · next n ns _ =>
    cases hf : op.foldInts n ns with
    | error e =>
      rw [hf] at h
      cases h
    | ok m =>
      rw [hf] at h
      cases h
      simp [Value.Within]
  · split at h <;> cases h
    simp [Value.Within]
  · cases hf : Arithmetic.floats operands with
    | error e =>
      rw [hf] at h
      cases h
    | ok xs =>
      rw [hf] at h
      cases xs <;> cases h <;> simp [Value.Within]

/-- Arithmetic does not look names up. -/
theorem Arithmetic.not_isUnbound_of_perform {op : Arithmetic} {operands : List Value} {e : Error}
    (h : op.perform operands = .error e) : ¬ e.IsUnbound := by
  unfold Arithmetic.perform at h
  split at h
  · next n ns _ =>
    cases hf : op.foldInts n ns with
    | error e' =>
      rw [hf] at h
      cases h
      exact not_isUnbound_of_foldInts hf
    | ok m =>
      rw [hf] at h
      cases h
  · split at h <;> cases h
    exact id
  · cases hf : Arithmetic.floats operands with
    | error e' =>
      rw [hf] at h
      cases h
      exact not_isUnbound_of_floats hf
    | ok xs =>
      rw [hf] at h
      cases h

/-- The answers of three-way comparison are numbers. -/
theorem within_orderOf {a b v : Value} {less greater : Except Error Bool}
    (h : orderOf a b less greater = .ok v) : v.Within R := by
  have hint : ∀ i, Value.Within R (.int i) := by simp [Value.Within]
  unfold orderOf at h
  split at h
  · cases h
    exact hint _
  · cases h
    exact hint _
  split at h
  · cases h
    exact hint _
  split at h <;> cases h

/-- A three-way comparison fails as one of the strict ones did, or because there is no order. -/
theorem error_of_orderOf {a b : Value} {less greater : Except Error Bool} {e : Error}
    (h : orderOf a b less greater = .error e) :
    e = .unordered a b ∨ less = .error e ∨ greater = .error e := by
  unfold orderOf at h
  split at h
  · cases h
  · cases h
  split at h
  · cases h
  split at h
  · cases h
    exact .inl rfl
  · cases h
    exact .inr (.inl rfl)
  · cases h
    exact .inr (.inr rfl)
  · cases h
    exact .inl rfl

theorem Environment.Within.callable? {env : Environment} (henv : env.Within R) {name : String}
    (hnamed : ∀ f, ¬ R.named name f) {v : Value} (hv : env.callable? name = some v) :
    v.Within R := by
  obtain ⟨hv, -⟩ := Option.mem_filter_iff.1 hv
  split at hv
  · next v' hlookup =>
    cases hv
    obtain ⟨f, -, hf⟩ | hwithin := henv.lookup hlookup
    · exact absurd hf (hnamed f)
    · rwa [Binding.within_value] at hwithin
  · next handle hlookup => exact henv.var? hv
  · cases hv

/-! ### Related computations -/

/-- A relation of computations that sequencing keeps, with a property of the answers.  `R` says what
occurs in environments. -/
structure Congruence (R : Repertoire) where
  rel : {α : Type} → (α → Prop) → Run α → Run α → Prop
  /-- How the computations may fail. -/
  error : Error → Prop
  /-- Whether failures may be caught. -/
  catches : Prop
  pure : ∀ {α : Type} {P : α → Prop} {a : α}, P a → rel P (Pure.pure a) (Pure.pure a)
  fail : ∀ {α : Type} {P : α → Prop} {e : Error}, error e → rel P (Run.fail e) (Run.fail e)
  bind : ∀ {α β : Type} {P : α → Prop} {Q : β → Prop} {x y : Run α} {f g : α → Run β},
    rel P x y → (∀ a, P a → rel Q (f a) (g a)) → rel Q (x >>= f) (y >>= g)
  attempt : ∀ {α : Type} {P : α → Prop} {x y : Run α}, catches → rel P x y →
    rel (fun outcome => ∀ e, outcome = .error e → error e) (Run.attempt x) (Run.attempt y)
  environment : rel (Environment.Within R) Run.environment Run.environment

namespace Congruence

variable {C : Congruence R}

theorem ofExcept {α : Type} {P : α → Prop} {outcome : Except Error α}
    (h : ∀ a, outcome = .ok a → P a) (he : ∀ e, outcome = .error e → C.error e) :
    C.rel P (Run.ofExcept outcome) (Run.ofExcept outcome) := by
  cases outcome with
  | error e => exact C.fail (he e rfl)
  | ok a => exact C.pure (h a rfl)

theorem map {α β : Type} {P : α → Prop} {Q : β → Prop} {x y : Run α} {f : α → β} (h : C.rel P x y)
    (hf : ∀ a, P a → Q (f a)) : C.rel Q (f <$> x) (f <$> y) :=
  C.bind (f := fun a => Pure.pure (f a)) (g := fun a => Pure.pure (f a)) h fun a ha =>
    C.pure (hf a ha)

/-- What operations on values rely on: failures may be any but those of names, the comparators are
ordinary values, and applying callables to values is related. -/
structure Applies (C : Congruence R) (host : Host) (level level' : Level) : Prop where
  error : ∀ e, ¬ e.IsUnbound → C.error e
  comparator : ∀ lenient f, ¬ R.named (HostLisp.comparator lenient) f
  /-- Where failures may not be caught, three-way comparison is not among the operations. -/
  apply : ∀ (primitive primitive' : Primitive → Run Value) (callee : Value) (operands : List Value),
    (∀ p, (p = .order → C.catches) → C.rel (Value.Within R) (primitive p) (primitive' p)) →
    callee.Within R → (∀ v ∈ operands, v.Within R) →
    C.rel (Value.Within R) (applyTo host level primitive callee operands)
      (applyTo host level' primitive' callee operands)

variable {host : Host} {level level' : Level} (h : C.Applies host level level')
include h

theorem rel_natural {lenient : Bool} {a b : Value}
    (hab : ∀ as bs, a = .list as → b = .list bs → False) :
    C.rel (fun _ => True) (lessThan host level lenient a b) (lessThan host level' lenient a b) := by
  rw [lessThan, lessThan]
  · split
    · exact C.pure trivial
    · exact C.fail (h.error _ id)
  · exact hab
  · exact hab

-- The induction is the recursion of the operations.  Elements are compared both ways round, so the
-- measure counts both lists; the second number orders the functions that call each other on the
-- same values.
set_option linter.unusedSectionVars false in
mutual
theorem rel_runPrimitive (p : Primitive) (operands : List Value) (hp : p = .order → C.catches)
    (hoperands : ∀ v ∈ operands, v.Within R) :
    C.rel (Value.Within R) (runPrimitive host level p operands)
      (runPrimitive host level' p operands) := by
  have hbool : ∀ c, Value.Within R (.bool c) := by simp [Value.Within]
  unfold runPrimitive
  match p, operands, hp, hoperands with
  | .arithmetic op, vs, _, _ =>
    exact ofExcept (fun v hv => Arithmetic.within_perform hv) fun e he =>
      h.error e (Arithmetic.not_isUnbound_of_perform he)
  | .comparison relation, [a, b], _, hoperands =>
    exact rel_compare relation a b (hoperands a (by simp)) (hoperands b (by simp))
  | .comparison _, [], _, _ | .comparison _, [_], _, _
  | .comparison _, _ :: _ :: _ :: _, _, _ => exact C.fail (h.error _ id)
  | .equality negated lenient, vs, _, _ => exact C.pure (hbool _)
  | .order, [a, b], hp, hoperands =>
    have ha := hoperands a (by simp)
    have hb := hoperands b (by simp)
    refine C.bind (C.attempt (hp rfl) (rel_lessThan false a b ha hb)) fun less hless => ?_
    refine C.bind (C.attempt (hp rfl) (rel_lessThan false b a hb ha)) fun greater hgreater => ?_
    refine ofExcept (fun v hv => within_orderOf hv) fun e he => ?_
    obtain rfl | he | he := error_of_orderOf he
    · exact h.error _ id
    · exact hless e he
    · exact hgreater e he
  | .order, [], _, _ | .order, [_], _, _ | .order, _ :: _ :: _ :: _, _, _ =>
    exact C.fail (h.error _ id)
  | .not, [], _, _ => exact C.fail (h.error _ id)
  | .not, [v], _, _ =>
    cases v with
    | bool c => exact C.pure (hbool _)
    | _ => exact C.fail (h.error _ id)
  | .not, v :: _ :: _, _, _ => cases v <;> exact C.fail (h.error _ id)
  | .list, vs, _, hoperands =>
    refine C.pure ?_
    rwa [Value.Within, Value.allWithin_iff]
termination_by (sizeOf operands, 3)
decreasing_by all_goals simp [Prod.lex_def]; omega
theorem rel_compare (relation : Comparison) (a b : Value) (ha : a.Within R) (hb : b.Within R) :
    C.rel (Value.Within R) (compare host level relation a b)
      (compare host level' relation a b) := by
  have hbool : ∀ c, Value.Within R (.bool c) := by simp [Value.Within]
  unfold compare
  split
  · exact C.pure (hbool _)
  split
  · exact C.pure (hbool _)
  split
  · exact map (rel_lessThan relation.lenient b a hb ha) fun c _ => hbool c
  · exact map (rel_lessThan relation.lenient a b ha hb) fun c _ => hbool c
termination_by (sizeOf a + sizeOf b + 3, 2)
decreasing_by all_goals simp [Prod.lex_def]; try omega
theorem rel_lessThan (lenient : Bool) (a b : Value) (ha : a.Within R) (hb : b.Within R) :
    C.rel (fun _ => True) (lessThan host level lenient a b) (lessThan host level' lenient a b) := by
  cases hl : a with
  | list as =>
    cases hr : b with
    | list bs =>
      rw [hl, Value.Within, Value.allWithin_iff] at ha
      rw [hr, Value.Within, Value.allWithin_iff] at hb
      unfold lessThan
      exact rel_lessItems lenient as bs ha hb
    | _ => exact rel_natural h nofun
  | _ => exact rel_natural h nofun
termination_by (sizeOf a + sizeOf b + 3, 1)
decreasing_by
  subst hl hr
  simp [Prod.lex_def]
  omega
theorem rel_lessItems (lenient : Bool) (as bs : List Value) (has : ∀ v ∈ as, v.Within R)
    (hbs : ∀ v ∈ bs, v.Within R) :
    C.rel (fun _ => True) (lessItems host level lenient as bs)
      (lessItems host level' lenient as bs) := by
  unfold lessItems
  match as, bs, has, hbs with
  | a :: as, b :: bs, has, hbs =>
    obtain ⟨ha, has⟩ := List.forall_mem_cons.1 has
    obtain ⟨hb, hbs⟩ := List.forall_mem_cons.1 hbs
    refine C.bind (rel_lessElement lenient a b ha hb) fun less _ => ?_
    split
    · exact C.pure trivial
    refine C.bind (rel_lessElement lenient b a hb ha) fun greater _ => ?_
    split
    · exact C.pure trivial
    exact rel_lessItems lenient as bs has hbs
  | [], bs, _, _ => exact C.pure trivial
  | _ :: _, [], _, _ => exact C.pure trivial
termination_by (sizeOf as + sizeOf bs + 3, 0)
decreasing_by all_goals simp [Prod.lex_def]; omega
theorem rel_lessElement (lenient : Bool) (a b : Value) (ha : a.Within R) (hb : b.Within R) :
    C.rel (fun _ => True) (lessElement host level lenient a b)
      (lessElement host level' lenient a b) := by
  have hab : ∀ v ∈ [a, b], v.Within R := by simp [ha, hb]
  unfold lessElement
  refine C.bind (P := fun callee => ∀ v ∈ callee, v.Within R) (C.bind C.environment fun env henv =>
    C.pure fun v hv => henv.callable? (h.comparator lenient) hv) fun callee hcallee => ?_
  split
  · next v =>
    -- What is applied may be a primitive, and then the two elements are its operands.
    refine C.bind (h.apply _ _ _ _ (fun p hp => ?_) (hcallee v rfl) hab) fun w _ => ?_
    · refine C.bind (P := fun _ => True) (ofExcept (fun _ _ => trivial) fun e he => ?_) fun _ _ =>
        rel_runPrimitive p [a, b] hp hab
      exact h.error e (Arity.not_isUnbound_of_check he)
    · split
      · exact C.pure trivial
      · exact C.fail (h.error _ id)
  · split
    · exact C.pure trivial
    · exact rel_lessThan lenient a b ha hb
termination_by (sizeOf a + sizeOf b + 3, 4)
decreasing_by all_goals simp [Prod.lex_def]; try omega
end

end Congruence

/-! ### Balance -/

/-- Balance looks at one computation only. -/
def Congruence.balancing (R : Repertoire) (n : Nat) (E : Error → Prop) : Congruence R where
  rel P x _ := Run.Balanced R n x P E
  error := E
  catches := True
  pure := .pure
  fail := .fail
  bind := .bind
  attempt _ hx := hx.attempt.mono fun _ h => h.2
  environment := .environment

/-- What operations on values rely on: errors may be any but those of names, the comparators are
ordinary values, and applying callables to values is balanced. -/
structure Level.Applies (host : Host) (level : Level) (R : Repertoire) (E : Error → Prop) :
    Prop where
  error : ∀ e, ¬ e.IsUnbound → E e
  comparator : ∀ lenient f, ¬ R.named (HostLisp.comparator lenient) f
  apply : ∀ (primitive : Primitive → Run Value) (callee : Value) (operands : List Value),
    (∀ p, Run.Balanced R level.remaining (primitive p) (Value.Within R) E) → callee.Within R →
    (∀ v ∈ operands, v.Within R) →
    Run.Balanced R level.remaining (applyTo host level primitive callee operands)
      (Value.Within R) E

variable {host : Host} {level : Level} {E : Error → Prop}

theorem balanced_reach (operands : List Value) (hE : E (.ofFailure .depthLimit)) :
    Run.Balanced R level.remaining (level.reach operands) (fun _ => True) E := by
  unfold Level.reach
  split
  · exact .pure trivial
  split
  · exact .fail hE
  · next hne =>
    obtain ⟨n, hn⟩ := Nat.exists_eq_succ_of_ne_zero hne
    rw [hn]
    exact .nested (.pure trivial)

theorem Level.Applies.congruence (h : level.Applies host R E) :
    (Congruence.balancing R level.remaining E).Applies host level level where
  error := h.error
  comparator := h.comparator
  apply primitive _ callee operands hprimitive :=
    h.apply primitive callee operands fun p => hprimitive p fun _ => trivial

variable (h : level.Applies host R E)
include h

theorem balanced_runPrimitive (p : Primitive) (operands : List Value)
    (hoperands : ∀ v ∈ operands, v.Within R) :
    Run.Balanced R level.remaining (runPrimitive host level p operands) (Value.Within R) E :=
  Congruence.rel_runPrimitive h.congruence p operands (fun _ => trivial) hoperands

theorem balanced_lessThan (lenient : Bool) (a b : Value) (ha : a.Within R) (hb : b.Within R) :
    Run.Balanced R level.remaining (lessThan host level lenient a b) (fun _ => True) E :=
  Congruence.rel_lessThan h.congruence lenient a b ha hb

theorem balanced_lessElement (lenient : Bool) (a b : Value) (ha : a.Within R) (hb : b.Within R) :
    Run.Balanced R level.remaining (lessElement host level lenient a b) (fun _ => True) E :=
  Congruence.rel_lessElement h.congruence lenient a b ha hb

end HostLisp
