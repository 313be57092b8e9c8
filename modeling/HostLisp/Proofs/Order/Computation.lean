import HostLisp.Proofs.Order.Comparison

/-!
# What comparisons compute

The operations find out how two values compare by way of whatever the comparator's name is bound to.
Where that is the primitive of the name, or nothing that can be applied, their outcome is the one of
`Value.order`, and they change nothing but the record of how deep evaluations have nested.
-/

namespace HostLisp

/-! ### Computations with one outcome -/

namespace Run

variable {α β : Type} {env : Environment} {x : Run α} {f : α → Run β}

/-- In this environment the computation has this outcome.  It changes nothing but the record of the
deepest nesting. -/
def Yields (env : Environment) (x : Run α) (outcome : Except Error α) : Prop :=
  ∀ m : Machine, m.env = env → ∃ deepest, x m = (outcome, { m with deepest })

theorem Yields.pure (a : α) : Yields env (Pure.pure a) (.ok a) :=
  fun m _ => ⟨m.deepest, rfl⟩

theorem Yields.fail (e : Error) : Yields env (Run.fail e : Run α) (.error e) :=
  fun m _ => ⟨m.deepest, rfl⟩

theorem Yields.ofExcept (outcome : Except Error α) : Yields env (Run.ofExcept outcome) outcome :=
  fun m _ => ⟨m.deepest, rfl⟩

theorem Yields.environment : Yields env environment (.ok env) := by
  intro m hm
  exact ⟨m.deepest, by rw [← hm]; rfl⟩

theorem Yields.bind {a : α} {outcome : Except Error β} (hx : Yields env x (.ok a))
    (hf : Yields env (f a) outcome) : Yields env (x >>= f) outcome := by
  intro m hm
  obtain ⟨d, hd⟩ := hx m hm
  obtain ⟨d', hd'⟩ := hf { m with deepest := d } hm
  exact ⟨d', by rw [bind_of_ok hd, hd']⟩

theorem Yields.bind_error {e : Error} (hx : Yields env x (.error e)) :
    Yields env (x >>= f) (.error e) := by
  intro m hm
  obtain ⟨d, hd⟩ := hx m hm
  exact ⟨d, bind_of_error hd⟩

theorem Yields.map {g : α → β} {outcome : Except Error α} (hx : Yields env x outcome) :
    Yields env (g <$> x) (outcome.map g) := by
  show Yields env (x >>= fun a => Pure.pure (g a)) _
  cases outcome with
  | ok a => exact hx.bind (.pure (g a))
  | error e => exact hx.bind_error

theorem Yields.attempt {outcome : Except Error α} (hx : Yields env x outcome) :
    Yields env (attempt x) (.ok outcome) := by
  intro m hm
  obtain ⟨d, hd⟩ := hx m hm
  exact ⟨d, by rw [Run.attempt, hd]⟩

/-- One more evaluation is under way for nothing. -/
theorem Yields.nested_pure (a : α) : Yields env (nested (Pure.pure a)) (.ok a) :=
  fun m _ => ⟨max m.deepest (m.depth + 1), rfl⟩

end Run

/-! ### Comparisons -/

/-- The strict order among the primitives. -/
def Comparison.less (lenient : Bool) : Comparison :=
  { lenient, swapped := false, orEqual := false }

/-- Whether the first of two values is less, by how they compare. -/
def lessBy (outcome : Except Error Ordering) : Except Error Bool := outcome.map (· == .lt)

/-- Elements of lists are compared by the primitive: the comparator's name is bound to that, and one
more evaluation may nest, or it is bound to nothing that can be applied. -/
def Level.ComparesPlainly (level : Level) (env : Environment) (lenient : Bool) : Prop :=
  env.callable? (comparator lenient) = none ∨
    level.remaining ≠ 0 ∧ ∃ id, env.callable? (comparator lenient) =
      some (.native ⟨id, .builtin (.primitive (.comparison (.less lenient)))⟩)

variable {host : Host} {level : Level} {env : Environment} {lenient : Bool}

theorem yields_boundComparator (name : String) :
    Run.Yields env (boundComparator name) (.ok (env.callable? name)) :=
  .bind .environment (.pure _)

theorem yields_reach (operands : List Value) (h : level.remaining ≠ 0) :
    Run.Yields env (level.reach operands) (.ok ()) := by
  unfold Level.reach
  split
  · exact .pure ()
  · exact .nested_pure ()

/-- What an order relation answers, by how its operands compare. -/
def Comparison.answer (relation : Comparison) (a b : Value) : Except Error Value :=
  if relation.lenient && (a.isNil || b.isNil) then .ok (.bool false)
  else if relation.orEqual && a == b then .ok (.bool true)
  else if relation.swapped then (lessBy (Value.order relation.lenient b a)).map .bool
  else (lessBy (Value.order relation.lenient a b)).map .bool

/-- On elements of lists the strict relation answers what their order says. -/
theorem Comparison.answer_less (lenient : Bool) (a b : Value) :
    (Comparison.less lenient).answer a b =
      (lessBy (Value.elementOrder lenient a b)).map .bool := by
  unfold answer Value.elementOrder less
  dsimp only
  split <;> rfl

theorem yields_compare_of {relation : Comparison} {a b : Value}
    (hab : Run.Yields env (lessThan host level relation.lenient a b)
      (lessBy (Value.order relation.lenient a b)))
    (hba : Run.Yields env (lessThan host level relation.lenient b a)
      (lessBy (Value.order relation.lenient b a))) :
    Run.Yields env (compare host level relation a b) (relation.answer a b) := by
  unfold compare Comparison.answer
  split
  · exact .pure _
  split
  · exact .pure _
  split
  · exact hba.map
  · exact hab.map

/-- Applying the primitive to two values is comparing them. -/
theorem yields_applyTo_less (host : Host) (id : String) (a b : Value)
    {outcome : Except Error Bool} {primitive : Primitive → Run Value} (h : level.remaining ≠ 0)
    (hprimitive : Run.Yields env (primitive (.comparison (.less lenient))) (outcome.map .bool)) :
    Run.Yields env
      (applyTo host level primitive
        (.native ⟨id, .builtin (.primitive (.comparison (.less lenient)))⟩) [a, b])
      (outcome.map .bool) := by
  have hanswer : Run.Yields env
      (Native.answer host level primitive
        ⟨id, .builtin (.primitive (.comparison (.less lenient)))⟩ [a, b])
      (outcome.map .bool) :=
    .bind (yields_reach [a, b] h) hprimitive
  cases outcome with
  | error e => exact hanswer.bind_error
  | ok answer => exact hanswer.bind (.pure _)

theorem yields_natural {a b : Value} (h : ∀ as bs, a = .list as → b = .list bs → False) :
    Run.Yields env (lessThan host level lenient a b) (lessBy (Value.order lenient a b)) := by
  rw [lessThan, Value.order_of_not_lists lenient h, Value.naturalOrder?]
  · cases a.naturalLess? b with
    | none => exact .fail _
    | some less =>
      cases less with
      | true => exact .pure true
      | false =>
        rw [Option.map_some, if_neg Bool.false_ne_true]
        by_cases hgreater : b.naturalLess? a = some true
        · rw [if_pos hgreater]
          exact .pure false
        · rw [if_neg hgreater]
          exact .pure false
  · exact h

section
variable (h : level.ComparesPlainly env lenient)
include h

-- The induction is the recursion of the operations, with their measure: elements are compared both
-- ways round, so both lists count.
set_option linter.unusedSectionVars false in
mutual
theorem yields_lessThan (a b : Value) :
    Run.Yields env (lessThan host level lenient a b) (lessBy (Value.order lenient a b)) := by
  cases hl : a with
  | list as =>
    cases hr : b with
    | list bs =>
      unfold lessThan
      exact yields_lessItems as bs
    | _ => exact yields_natural nofun
  | _ => exact yields_natural nofun
termination_by (sizeOf a + sizeOf b + 3, 1)
decreasing_by
  subst hl hr
  simp [Prod.lex_def]
  omega
theorem yields_lessItems (as bs : List Value) :
    Run.Yields env (lessItems host level lenient as bs)
      (lessBy (Value.orderItems lenient as bs)) := by
  match as, bs with
  | a :: as, b :: bs =>
    have hab := yields_lessElement a b
    have hba := yields_lessElement b a
    rw [lessItems, Value.orderItems_cons]
    cases ho : Value.elementOrder lenient a b with
    | error e =>
      rw [ho] at hab
      exact hab.bind_error
    | ok o =>
      -- The second comparison turns the first round, so it cannot fail if the first has not.
      rw [ho] at hab
      rw [Value.elementOrder_swap ho] at hba
      apply hab.bind
      cases o with
      | lt => exact .pure true
      | gt => exact hba.bind (.pure false)
      | eq => exact hba.bind (yields_lessItems as bs)
  | [], [] =>
    rw [lessItems]
    exact .pure _
  | [], _ :: _ =>
    rw [lessItems]
    exact .pure _
  | _ :: _, [] =>
    rw [lessItems]
    exact .pure _
termination_by (sizeOf as + sizeOf bs + 3, 0)
decreasing_by all_goals simp [Prod.lex_def]; omega
theorem yields_lessElement (a b : Value) :
    Run.Yields env (lessElement host level lenient a b)
      (lessBy (Value.elementOrder lenient a b)) := by
  have hless := yields_lessThan a b
  unfold lessElement
  apply Run.Yields.bind (yields_boundComparator _)
  rcases h with hnone | ⟨hremaining, id, hsome⟩
  · -- Nothing that can be applied: elements that are nil are passed over, others compared at once.
    rw [hnone]
    unfold Value.elementOrder
    dsimp only
    split
    · exact .pure _
    · exact hless
  · -- The primitive: it passes over nil by itself.
    rw [hsome]
    let primitive (p : Primitive) : Run Value := do
      Run.ofExcept (p.arity.check 2)
      runPrimitive host level p [a, b]
    have hprimitive : Run.Yields env (primitive (.comparison (.less lenient)))
        ((lessBy (Value.elementOrder lenient a b)).map .bool) := by
      apply Run.Yields.bind (.ofExcept (.ok ()))
      rw [runPrimitive, ← Comparison.answer_less]
      exact yields_compare_of hless (yields_lessThan b a)
    have happly := yields_applyTo_less host id a b hremaining hprimitive
    cases ho : lessBy (Value.elementOrder lenient a b) with
    | error e =>
      rw [ho] at happly
      exact happly.bind_error
    | ok answer =>
      rw [ho] at happly
      exact happly.bind (.pure answer)
termination_by (sizeOf a + sizeOf b + 3, 4)
decreasing_by all_goals simp [Prod.lex_def]; try omega
end

theorem yields_comparison (swapped orEqual : Bool) (a b : Value) :
    Run.Yields env (runPrimitive host level (.comparison ⟨lenient, swapped, orEqual⟩) [a, b])
      (Comparison.answer ⟨lenient, swapped, orEqual⟩ a b) := by
  rw [runPrimitive]
  exact yields_compare_of (yields_lessThan h a b) (yields_lessThan h b a)

omit h in
theorem yields_order (h : level.ComparesPlainly env false) (a b : Value) :
    Run.Yields env (runPrimitive host level .order [a, b])
      (orderOf a b (lessBy (Value.order false a b)) (lessBy (Value.order false b a))) := by
  rw [runPrimitive]
  apply Run.Yields.bind (yields_lessThan h a b).attempt
  exact .bind (yields_lessThan h b a).attempt (.ofExcept _)

end

end HostLisp
