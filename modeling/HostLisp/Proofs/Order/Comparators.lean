import HostLisp.Proofs.Order.Derived

/-!
# Comparators

Elements of lists are compared by whatever the comparator's name is bound to.  If that is the
primitive of the name, it gets the elements as quoted expressions, has them evaluated, and its
answer is looked at; if it is nothing that can be applied, the comparison goes on with the elements
at once.  Both come to the same (`lessThan_rebound`).

The strict comparator fails on nil, the lenient one passes over it.  So the lenient relations answer
what the strict ones answer, wherever these answer at all (`comparison_lenient`).
-/

namespace HostLisp

variable {host : Host} {level : Level} {a b : Value}

/-! ### Bound or not -/

/-- Whether the comparator's name is bound to its primitive or to nothing that can be applied, two
values compare alike, and the environment stays as it is. -/
theorem lessThan_rebound {m₁ m₂ : Machine} {lenient : Bool} {id : String}
    (hremaining : level.remaining ≠ 0)
    (hbound : m₁.env.callable? (comparator lenient) =
      some (.native ⟨id, .builtin (.primitive (.comparison (.less lenient)))⟩))
    (hfree : m₂.env.callable? (comparator lenient) = none) (a b : Value) :
    let less (m : Machine) := lessThan host level lenient a b m
    (less m₁).1 = (less m₂).1 ∧ (∃ deepest, (less m₁).2 = { m₁ with deepest }) ∧
      ∃ deepest, (less m₂).2 = { m₂ with deepest } := by
  intro less
  have hyields : ∀ m : Machine, level.ComparesPlainly m.env lenient →
      ∃ deepest, less m = (lessBy (Value.order lenient a b), { m with deepest }) :=
    fun m h => yields_lessThan h a b m rfl
  obtain ⟨d₁, h₁⟩ := hyields m₁ (.inr ⟨hremaining, id, hbound⟩)
  obtain ⟨d₂, h₂⟩ := hyields m₂ (.inl hfree)
  rw [h₁, h₂]
  exact ⟨rfl, ⟨d₁, rfl⟩, ⟨d₂, rfl⟩⟩

namespace Host.Sample

/-- The lenient comparator is bound to its primitive, and nothing else is bound. -/
def comparing : Machine where
  env := Environment.empty.defineValue "<?"
    (.native ⟨"<?", .builtin (.primitive (.comparison (.less true)))⟩)

/-- The lenient comparator is bound to a number, and nothing else is bound. -/
def numbering : Machine where
  env := Environment.empty.defineValue "<?" (.int 0)

end Host.Sample

open Host.Sample

/-- `((nil 'x))` does not compare with `((1 2))`, since after nil it is an atom that faces a number,
and what is bound to the comparator is not to be seen from that. -/
theorem lessThan_rebound_nested :
    (lessThan Host.Sample.host (.top Host.Sample.host) true
        (.list [.list [.nil, .ofName "x"]]) (.list [.list [.int 1, .int 2]]) comparing).1 =
      .error (.ofMisfit (.notComparable (.ofName "x") (.int 2))) := by
  have hrebound := @lessThan_rebound Host.Sample.host (.top Host.Sample.host) comparing numbering
    true "<?" (by decide) rfl rfl (.list [.list [.nil, .ofName "x"]])
    (.list [.list [.int 1, .int 2]])
  have h : numbering.env.callable? "<?" = none := rfl
  exact hrebound.1.trans (lessThan_outcome (.inl h) _ _)

/-! ### Strict and lenient -/

/-- Values that compare do so leniently as well: none of the elements that decide it is nil. -/
theorem Value.Compares.lenient {o : Ordering} (h : Value.Compares false a b o) (lenient : Bool) :
    Value.Compares lenient a b o := by
  induction h with
  | natural h => exact .natural h
  | bothEnd => exact .bothEnd
  | leftEnds b bs => exact .leftEnds b bs
  | rightEnds a as => exact .rightEnds a as
  | passed hnil => cases hnil
  | decided _ hne ih => exact .decided ih hne
  | tied _ _ ih ihs => exact .tied ih ihs

theorem Value.order_lenient {o : Ordering} (h : Value.order false a b = .ok o) :
    Value.order true a b = .ok o :=
  ((Value.compares_of_order a b h).lenient true).order_eq

theorem lessBy_lenient {r : Bool} (h : lessBy (Value.order false a b) = .ok r) :
    lessBy (Value.order true a b) = .ok r := by
  cases ho : Value.order false a b with
  | error e =>
    rw [ho] at h
    cases h
  | ok o =>
    rw [ho] at h
    rw [Value.order_lenient ho]
    exact h

/-- What a relation answers on operands that are not nil: whether they are equal, where that counts,
or else which one is less. -/
theorem Comparison.answer_of_not_nil (ha : a.isNil = false) (hb : b.isNil = false)
    (lenient swapped orEqual : Bool) :
    Comparison.answer ⟨lenient, swapped, orEqual⟩ a b =
      if orEqual && a == b then .ok (.bool true)
      else (lessBy (Value.order lenient (if swapped then b else a)
        (if swapped then a else b))).map .bool := by
  unfold Comparison.answer
  dsimp only
  rw [ha, hb, Bool.or_self, Bool.and_false, if_neg Bool.false_ne_true]
  cases swapped <;> rfl

theorem Comparison.answer_lenient {swapped orEqual r : Bool} (ha : a.isNil = false)
    (hb : b.isNil = false) (h : Comparison.answer ⟨false, swapped, orEqual⟩ a b = .ok (.bool r)) :
    Comparison.answer ⟨true, swapped, orEqual⟩ a b = .ok (.bool r) := by
  rw [answer_of_not_nil ha hb] at h ⊢
  split at h
  · next hequal => rw [if_pos hequal, h]
  · next hequal =>
    rw [if_neg hequal]
    cases hless : lessBy (Value.order false (if swapped then b else a)
        (if swapped then a else b)) with
    | error e =>
      rw [hless] at h
      cases h
    | ok less =>
      rw [hless] at h
      rw [lessBy_lenient hless]
      exact h

/-- On operands that are not nil each lenient relation answers what the strict one answers. -/
theorem comparison_lenient {m : Machine} (hstrict : level.ComparesPlainly m.env false)
    (hlenient : level.ComparesPlainly m.env true) (ha : a.isNil = false) (hb : b.isNil = false)
    {swapped orEqual r : Bool} :
    let answer (lenient : Bool) :=
      (runPrimitive host level (.comparison ⟨lenient, swapped, orEqual⟩) [a, b] m).1
    answer false = .ok (.bool r) → answer true = .ok (.bool r) := by
  intro answer h
  have hanswer : answer true = Comparison.answer ⟨true, swapped, orEqual⟩ a b :=
    comparison_outcome hlenient swapped orEqual a b
  rw [hanswer]
  exact Comparison.answer_lenient ha hb
    ((comparison_outcome hstrict swapped orEqual a b).symm.trans h)

/-- `(1 nil)` is greater than or equal to `(0 nil)`, where the comparison stops in front of nil. -/
theorem comparison_lenient_before_nil :
    (runPrimitive Host.Sample.host (.top Host.Sample.host) (.comparison ⟨true, true, true⟩)
      [.list [.int 1, .nil], .list [.int 0, .nil]] (.global default)).1 = .ok (.bool true) := by
  have hplain : ∀ lenient,
      (Level.top Host.Sample.host).ComparesPlainly (Machine.global default).env lenient :=
    comparesPlainly_global (by decide)
  have hanswer : Comparison.answer ⟨false, true, true⟩ (.list [.int 1, .nil])
      (.list [.int 0, .nil]) = .ok (.bool true) := rfl
  exact comparison_lenient (hplain false) (hplain true) rfl rfl
    ((comparison_outcome (hplain false) true true _ _).trans hanswer)

/-- Where the strict relation fails the lenient one may answer, and nil equals nil only for the
strict one. -/
example :
    Comparison.answer ⟨false, false, false⟩ (.list [.nil, .int 1]) (.list [.nil, .int 2]) =
        .error (.ofMisfit (.notComparable .nil .nil)) ∧
      Comparison.answer ⟨true, false, false⟩ (.list [.nil, .int 1]) (.list [.nil, .int 2]) =
        .ok (.bool true) ∧
      Comparison.answer ⟨false, false, true⟩ .nil .nil = .ok (.bool true) ∧
      Comparison.answer ⟨true, false, true⟩ .nil .nil = .ok (.bool false) :=
  ⟨rfl, rfl, rfl, rfl⟩

end HostLisp
